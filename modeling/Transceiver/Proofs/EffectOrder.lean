import Mathlib.Data.List.Induction
import Transceiver.Proofs.FrameAnnouncement

/-!
# The order of effects

The framer is prompted by octets, and at any point it may be told to pass over the rest of a frame
or to give up. Every effect about the octets of a frame then belongs to the frame that is open: the
last one announced, which no octet since has completed and nothing has closed. `inside_since` finds
it in the record of the turns from the state of the framer, and with it how many of its octets have
been stored; `effects_in_order` says from there what the next prompt can bring. The check sequence
flag is read anew with every octet, so `Counted` has both ends of the frame within reach as long as
the flag has changed.
-/

namespace Transceiver

def effectSlots : Nat := 4

namespace ReceiveEffect

@[simp] def IsOfFrame : ReceiveEffect → Prop
  | .push _ | .filterCheck _ | .frameComplete _ => True
  | _ => False

def isPush : ReceiveEffect → Bool
  | .push _ => true
  | _ => false

end ReceiveEffect

namespace ReceiveFramer

inductive Prompt where
  | octet (i : ReceiveInput)
  | reject
  | overflow

structure Turn where
  prompt : Prompt
  effects : List ReceiveEffect

def respond (f : ReceiveFramer) : Prompt → ReceiveFramer × List ReceiveEffect
  | .octet i => ((f.step i).1, (f.step i).2.effects)
  | .reject => (f.reject, [])
  | .overflow => (f.overflow, [])

def prompted (f : ReceiveFramer) : List Prompt → ReceiveFramer × List Turn
  | [] => (f, [])
  | p :: ps =>
    ((prompted (f.respond p).1 ps).1, ⟨p, (f.respond p).2⟩ :: (prompted (f.respond p).1 ps).2)

theorem prompted_concat (f : ReceiveFramer) (ps : List Prompt) (p : Prompt) :
    f.prompted (ps ++ [p]) = (((f.prompted ps).1.respond p).1,
      (f.prompted ps).2 ++ [⟨p, ((f.prompted ps).1.respond p).2⟩]) := by
  induction ps generalizing f with
  | nil => rfl
  | cons q ps ih => simp only [List.cons_append, prompted, ih]

/-! ### Frames in the record -/

def Turn.KeepsOpen (t : Turn) : Prop :=
  ∃ i, t.prompt = .octet i ∧ i.carrier = true ∧ (∀ l, .frameStart l ∉ t.effects) ∧
    ∀ v, .frameComplete v ∉ t.effects

/-- In these turns a frame was opened with its length octet, under this check sequence flag, and
since then it has not been closed. -/
structure Opened (turns : List Turn) (l : UInt8) (autoFcs : Bool) (since : List Turn) : Prop where
  opening : ∃ earlier i, i.autoFcs = autoFcs ∧
    turns = earlier ++ ⟨.octet i, [.frameStart l]⟩ :: since
  still_open : ∀ t ∈ since, t.KeepsOpen

def pushes (turns : List Turn) : Nat := (turns.flatMap Turn.effects).countP ReceiveEffect.isPush

def Steady (autoFcs : Bool) (turns : List Turn) : Prop :=
  ∀ t ∈ turns, ∀ i, t.prompt = .octet i → i.autoFcs = autoFcs

theorem pushes_concat (turns : List Turn) (t : Turn) :
    pushes (turns ++ [t]) = pushes turns + t.effects.countP ReceiveEffect.isPush := by
  simp [pushes]

theorem steady_concat {autoFcs : Bool} {turns : List Turn} {i : ReceiveInput}
    {effects : List ReceiveEffect} : Steady autoFcs (turns ++ [⟨.octet i, effects⟩]) ↔
      Steady autoFcs turns ∧ i.autoFcs = autoFcs := by
  simp [Steady, or_imp, forall_and]

theorem Opened.concat {turns since : List Turn} {l : UInt8} {autoFcs : Bool} {t : Turn}
    (h : Opened turns l autoFcs since) (ht : t.KeepsOpen) :
    Opened (turns ++ [t]) l autoFcs (since ++ [t]) := by
  obtain ⟨earlier, i, hi, rfl⟩ := h.opening
  refine ⟨⟨earlier, i, hi, by simp⟩, fun u hu => ?_⟩
  rcases List.mem_append.1 hu with hu | hu
  · exact h.still_open u hu
  · rwa [List.mem_singleton.1 hu]

/-! ### One step -/

/-- The framer is inside a frame of length `l` of which `n` octets are stored. If the check sequence
flag has been steady, then the frame ends where its length says. -/
inductive Counted (l n : Nat) (autoFcs : Bool) (steady : Prop) : ReceiveFramer → Prop where
  | body {f : ReceiveFramer} (phase_eq : f.phase = .inPacket) (length_eq : f.length.toNat = l)
      (counter_eq : f.counter.toNat = n) (more : n < l)
      (room : steady → autoFcs = true → n + 2 < l) : Counted l n autoFcs steady f
  | checks {f : ReceiveFramer} (phase_eq : f.phase = .check1) (enough : l ≤ n + 2) (bound : n ≤ l)
      (exact : steady → n + 2 = l) : Counted l n autoFcs steady f
  | lastCheck {f : ReceiveFramer} (phase_eq : f.phase = .check2) (enough : l ≤ n + 1)
      (bound : n ≤ l + 1) (exact : steady → n + 1 = l) : Counted l n autoFcs steady f

/-- What a step has to do with octet `n` of a frame of length `l`: it stores the octet, may have the
frame filtered up to it, and either the frame goes on or it is complete. -/
def Stores (l n : Nat) (autoFcs : Bool) (steady : Prop) (b : UInt8)
    (r : ReceiveFramer × List ReceiveEffect) : Prop :=
  ∃ checks completion, r.2 = .push b :: (checks ++ completion) ∧
    (checks = [] ∨ checks = [.filterCheck n]) ∧
    (completion = [] ∧ Counted l n autoFcs steady r.1 ∨
      (∃ v, completion = [.frameComplete v]) ∧ r.1.phase = .done ∧ l ≤ n ∧ n ≤ l + 2 ∧
        (steady → n = l))

variable {f : ReceiveFramer} {i : ReceiveInput} {l n : Nat} {autoFcs : Bool} {steady : Prop}

theorem Counted.inFrame (h : Counted l n autoFcs steady f) : f.InFrame := by
  cases h with
  | body phase_eq => exact .inl phase_eq
  | checks phase_eq => exact .inr (.inl phase_eq)
  | lastCheck phase_eq => exact .inr (.inr phase_eq)

theorem counted_of_within (h : Within autoFcs l [] f) :
    Counted l 0 autoFcs steady f := by
  generalize hp : ([] : List UInt8) = p at h
  cases h with
  | body phase_eq length_eq counter_eq crc_eq more =>
    subst hp
    have hmore : 0 < if autoFcs then l - 2 else l := more
    refine .body phase_eq length_eq counter_eq ?_ fun _ hfcs => ?_
    · split at hmore <;> omega
    · rw [hfcs, if_pos rfl] at hmore
      omega
  | checks fcs phase_eq crc_eq two_left =>
    subst hp
    exact .checks phase_eq (Nat.le_of_eq two_left.symm) (Nat.zero_le _) fun _ => two_left
  | lastCheck => simp at hp

theorem stores_takeOctet (hp : f.phase = .inPacket) (hl : f.length.toNat = l)
    (hn : f.counter.toNat = n) (hmore : n < l) (hroom : steady → autoFcs = true → n + 2 < l)
    (b : UInt8) (flag : Bool) :
    Stores l (n + 1) autoFcs (steady ∧ flag = autoFcs) b (f.takeOctet b flag) := by
  have hcounter : (f.counter + 1).toNat = n + 1 := by
    rw [toNat_counter_succ (by omega), hn]
  have hchecks (checks : List ReceiveEffect)
      (h : checks = if n + 1 ∈ checkOffsets then [.filterCheck (n + 1)] else []) :
      checks = [] ∨ checks = [.filterCheck (n + 1)] := by
    rw [h]
    split
    · exact .inr rfl
    · exact .inl rfl
  unfold takeOctet
  simp only [hcounter, UInt8.le_iff_toNat_le, toNat_withoutFcs, hl]
  cases flag with
  | true =>
    refine ⟨_, [], (List.append_nil _ ▸ rfl), hchecks _ rfl, .inl ⟨rfl, ?_⟩⟩
    by_cases hend : l - 2 ≤ n + 1
    · refine .checks (if_pos hend) (by omega) (by omega) fun hsteady => ?_
      have := hroom hsteady.1 hsteady.2.symm
      omega
    · exact .body (if_neg hend) hl hcounter (by omega) fun _ _ => by omega
  | false =>
    by_cases hend : l ≤ n + 1
    · simp only [Bool.false_eq_true, if_false, if_pos hend]
      exact ⟨_, [.frameComplete none], rfl, hchecks _ rfl,
        .inr ⟨⟨none, rfl⟩, rfl, hend, by omega, fun _ => by omega⟩⟩
    · simp only [Bool.false_eq_true, if_false, if_neg hend]
      refine ⟨_, [], (List.append_nil _ ▸ rfl), hchecks _ rfl, .inl ⟨rfl, ?_⟩⟩
      exact .body hp hl hcounter (by omega) fun hsteady hfcs => by simp [hfcs] at hsteady

theorem Counted.step (h : Counted l n autoFcs steady f) (hc : i.carrier = true) :
    Stores l (n + 1) autoFcs (steady ∧ i.autoFcs = autoFcs) i.octet
      ((f.step i).1, (f.step i).2.effects) := by
  rw [step_of_carrier h.inFrame.ne_done hc]
  unfold hear
  cases h with
  | body phase_eq length_eq counter_eq more room =>
    simp only [phase_eq]
    exact stores_takeOctet phase_eq length_eq counter_eq more room _ _
  | checks phase_eq enough bound exact =>
    simp only [phase_eq]
    refine ⟨[], [], rfl, .inl rfl, .inl ⟨rfl, ?_⟩⟩
    refine .lastCheck rfl (by omega) (by omega) fun hsteady => ?_
    have := exact hsteady.1
    omega
  | lastCheck phase_eq enough bound exact =>
    simp only [phase_eq]
    refine ⟨[], _, rfl, .inl rfl, .inr ⟨⟨_, rfl⟩, rfl, by omega, by omega, fun hsteady => ?_⟩⟩
    exact exact hsteady.1

theorem counter_takeOctet (f : ReceiveFramer) (b : UInt8) (autoFcs : Bool) :
    (f.takeOctet b autoFcs).1.counter = f.counter + 1 := by
  unfold takeOctet
  simp only
  split
  · rfl
  · split <;> rfl

/-- Counting is exact, and so the counter never overflows. -/
theorem Counted.counter_step (h : Counted l n autoFcs steady f) (hp : f.phase = .inPacket)
    (hc : i.carrier = true) : (f.step i).1.counter.toNat = f.counter.toNat + 1 := by
  rw [step_of_carrier h.inFrame.ne_done hc]
  simp only [hear, hp, counter_takeOctet]
  cases h with
  | body phase_eq length_eq counter_eq more => exact toNat_counter_succ (by omega)
  | checks phase_eq | lastCheck phase_eq => cases phase_eq.symm.trans hp

/-- Outside of a frame, or with the carrier lost, no effect is about the octets of one. -/
theorem not_isOfFrame_step (h : f.InFrame → i.carrier = false) :
    (f.step i).2.effects.length ≤ 2 ∧ ∀ x ∈ (f.step i).2.effects, ¬x.IsOfFrame := by
  by_cases hd : f.phase = .done
  · rw [step_of_done hd]
    simp
  cases hc : i.carrier with
  | false =>
    rw [step_of_silence hd hc]
    unfold loseCarrier
    cases f.phase <;> simp
  | true =>
    have hout : ¬f.InFrame := fun hin => by simp [hc] at h; exact h hin
    rw [step_of_carrier hd hc]
    unfold hear
    cases hp : f.phase with
    | inPacket | check1 | check2 => exact absurd (by simp [InFrame, hp]) hout
    | done => exact absurd hp hd
    | scanning | overflow => simp [scan]
    | matched1 =>
      simp only
      split <;> simp [scan]
    | matched2 =>
      rcases f.openFrame_void_or_within i.octet i.autoFcs with ⟨-, g, -, he⟩ | ⟨-, g, -, he⟩ <;>
        simp [he]
    | waiting =>
      unfold passOver
      simp only
      generalize (if f.counter = 255 then 255 else f.counter + 1) = counter
      split <;> simp

/-! ### The whole record -/

def InsideSince (turns : List Turn) (f : ReceiveFramer) : Prop :=
  ∃ l autoFcs since, Opened turns l autoFcs since ∧
    Counted l.toNat (pushes since) autoFcs (Steady autoFcs since) f ∧
    ∀ k, .filterCheck k ∈ since.flatMap Turn.effects → k ≤ pushes since

variable {turns : List Turn}

theorem insideSince_of_announced {l : UInt8} (h : f.announced? i = some l) :
    InsideSince (turns ++ [⟨.octet i, (f.step i).2.effects⟩]) (f.step i).1 := by
  obtain ⟨g, hg, hstep⟩ := step_of_announced h
  rw [hstep]
  exact ⟨l, i.autoFcs, [], ⟨⟨turns, i, rfl, rfl⟩, by simp⟩, counted_of_within hg, by simp⟩

/-- The next octet belongs to the frame, if it does not complete it. -/
theorem InsideSince.step (h : InsideSince turns f) (hc : i.carrier = true)
    (h' : (f.step i).1.InFrame) :
    InsideSince (turns ++ [⟨.octet i, (f.step i).2.effects⟩]) (f.step i).1 := by
  obtain ⟨l, autoFcs, since, hopened, hcounted, hfiltered⟩ := h
  obtain ⟨checks, completion, he, hchecks, ⟨rfl, hnext⟩ | ⟨-, hdone, -⟩⟩ := hcounted.step hc
  · have he : (f.step i).2.effects = .push i.octet :: checks := he.trans (by rw [List.append_nil])
    have hkeeps : Turn.KeepsOpen ⟨.octet i, (f.step i).2.effects⟩ := by
      refine ⟨i, rfl, hc, fun l => ?_, fun v => ?_⟩ <;> rw [he] <;>
        rcases hchecks with rfl | rfl <;> simp
    have hpushes : pushes (since ++ [⟨.octet i, (f.step i).2.effects⟩]) = pushes since + 1 := by
      rw [pushes_concat, he]
      rcases hchecks with rfl | rfl <;> rfl
    refine ⟨l, autoFcs, _, hopened.concat hkeeps, ?_, fun k hk => ?_⟩
    · rw [hpushes, steady_concat]
      exact hnext
    · rw [List.flatMap_append, List.mem_append] at hk
      rw [hpushes]
      rcases hk with hk | hk
      · exact Nat.le_succ_of_le (hfiltered k hk)
      · rcases hchecks with rfl | rfl <;> simp [he] at hk
        exact Nat.le_of_eq hk
  · exact absurd hdone h'.ne_done

/-- A framer inside a frame has opened it, and counts the octets stored since. -/
theorem inside_since {ps : List Prompt} (h : (start.prompted ps).1.InFrame) :
    InsideSince (start.prompted ps).2 (start.prompted ps).1 := by
  induction ps using List.reverseRecOn with
  | nil => simp [prompted, start, InFrame] at h
  | append_singleton ps p ih =>
    rw [prompted_concat] at h ⊢
    cases p with
    | reject => simp [respond, reject, InFrame] at h
    | overflow => simp [respond, overflow, InFrame] at h
    | octet i =>
      by_cases hin : (start.prompted ps).1.InFrame
      · exact (ih hin).step (carrier_of_inFrame hin h) h
      · obtain ⟨l, hl, -⟩ := announced?_of_enters hin (.inl h)
        exact insideSince_of_announced hl

/-- Whatever the framer has been prompted by, the effects of its next turn fit into the output.
Those about the octets of a frame come in its turn with an octet of the frame that is open: the
octet is stored, then filtered up to at most once and farther than ever before, and then the frame
may be complete, after as many octets as its length says if the check sequence flag has not changed,
and up to two more otherwise. A complete frame is reported as over with the next octet, and the
counter never overflows. -/
theorem effects_in_order (ps : List Prompt) (p : Prompt) :
    let f := (start.prompted ps).1
    let turns := (start.prompted ps).2
    let effects := (f.respond p).2
    effects.length ≤ effectSlots ∧
    (∀ x ∈ effects, x.IsOfFrame → ∃ l autoFcs since, Opened turns l autoFcs since ∧
      ∃ i checks completion, p = .octet i ∧ i.carrier = true ∧
        effects = .push i.octet :: (checks ++ completion) ∧
        (checks = [] ∨ checks = [.filterCheck (pushes since + 1)]) ∧
        (∀ k, .filterCheck k ∈ since.flatMap Turn.effects → k < pushes since + 1) ∧
        (completion = [] ∨ (∃ v, completion = [.frameComplete v]) ∧
          l.toNat ≤ pushes since + 1 ∧ pushes since + 1 ≤ l.toNat + 2 ∧
          (Steady autoFcs since ∧ i.autoFcs = autoFcs → pushes since + 1 = l.toNat))) ∧
    (∀ v, .frameComplete v ∈ effects →
      ∀ i, ((f.respond p).1.step i).2.effects = [.endOfFrame i.carrier]) ∧
    (f.phase = .inPacket → ∀ i, p = .octet i → i.carrier = true →
      (f.respond p).1.counter.toNat = f.counter.toNat + 1) := by
  intro f turns effects
  by_cases hin : f.InFrame ∧ ∃ i, p = .octet i ∧ i.carrier = true
  · obtain ⟨hframe, i, rfl, hc⟩ := hin
    obtain ⟨l, autoFcs, since, hopened, hcounted, hfiltered⟩ := inside_since hframe
    obtain ⟨checks, completion, he, hchecks, hcompletion⟩ := hcounted.step hc
    have heffects : effects = .push i.octet :: (checks ++ completion) := he
    refine ⟨?_, fun x _ _ => ⟨l, autoFcs, since, hopened, i, checks, completion, rfl, hc, heffects,
      hchecks, fun k hk => Nat.lt_succ_of_le (hfiltered k hk), ?_⟩, fun v hv => ?_, ?_⟩
    · rw [heffects, effectSlots]
      rcases hchecks with rfl | rfl <;>
        rcases hcompletion with ⟨rfl, -⟩ | ⟨⟨v, rfl⟩, -⟩ <;> simp
    · rcases hcompletion with ⟨rfl, -⟩ | ⟨hcomplete, -, henough, hbound, hexact⟩
      · exact .inl rfl
      · exact .inr ⟨hcomplete, henough, hbound, hexact⟩
    · rcases hcompletion with ⟨rfl, -⟩ | ⟨-, hdone, -⟩
      · rw [heffects] at hv
        rcases hchecks with rfl | rfl <;> simp at hv
      · exact fun j => congrArg (fun r => r.2.effects) (step_of_done (i := j) hdone)
    · rintro hp j hj -
      cases hj
      exact hcounted.counter_step hp hc
  · have hout : effects.length ≤ 2 ∧ ∀ x ∈ effects, ¬x.IsOfFrame := by
      cases p with
      | reject | overflow => exact ⟨Nat.zero_le _, by simp [effects, respond]⟩
      | octet i =>
        refine not_isOfFrame_step fun h => eq_false_of_ne_true fun hc => ?_
        exact hin ⟨h, i, rfl, hc⟩
    refine ⟨Nat.le_trans hout.1 (by decide), fun x hx h => absurd h (hout.2 x hx),
      fun v hv => absurd trivial (hout.2 _ hv), fun hp i hi hc => ?_⟩
    exact absurd ⟨.inl hp, i, hi, hc⟩ hin

end ReceiveFramer

end Transceiver
