import Transceiver.Proofs.BusAccess

/-!
# Isolation of transactions

A new transaction on the serial bus finds the memory address of an earlier one still in place. What
the bus asks of the chip does not depend on the chip (`exchange_eq`), so it can be followed without
it: transactions are `Alike` if they differ at most in an address that will be written before it is
read, and then they ask for the same and remain alike. A restart makes any two of them alike, which
isolates what comes behind it from all that came before (`transactions_isolated`).
-/

namespace Transceiver

variable {G : Type}

inductive BusRequest where
  | readRegister (r : Register)
  | writeRegister (r : Register) (v : UInt8)
  | popFrame
  | pushFrame (b : UInt8)
  | peekFrame (index : FrameIndex)
  | uploadFrame (index : FrameIndex) (b : UInt8)
  deriving DecidableEq

inductive BusEvent where
  | restart
  | exchange (b : UInt8)
  | elsewhere (op : Operation)

namespace Chip

def serve (c : Chip G) : BusRequest → UInt8 × Chip G
  | .readRegister r => c.readRegister r
  | .writeRegister r v => (0, c.writeRegister r v)
  | .popFrame => (c.popFrame.1.getD 0, c.popFrame.2)
  | .pushFrame b => (0, (c.pushFrame b).2)
  | .peekFrame index => (c.buffer.octets.getD index 0, c)
  | .uploadFrame index b => (0, (c.uploadFrame index b).2)

def serveAll (c : Chip G) : List (Option BusRequest) → List UInt8 × Chip G
  | [] => ([], c)
  | q :: qs =>
    let (out, c) := q.elim (0, c) c.serve
    let (outs, c) := c.serveAll qs
    (out :: outs, c)

theorem serveAll_replicate_none (c : Chip G) (n : Nat) :
    c.serveAll (List.replicate n none) = (List.replicate n 0, c) := by
  induction n with
  | zero => rfl
  | succ n ih => simp only [List.replicate_succ, serveAll, Option.elim_none, ih]

end Chip

namespace Access

def isMemory : Access → Bool
  | .readMemory | .writeMemory => true
  | _ => false

theorem ofByte_of_register {b : UInt8} (h : b &&& 0x80 ≠ 0) :
    ofByte b = if b &&& 0x40 = 0 then .readRegister (.ofByte b) else .writeRegister (.ofByte b) := by
  simp only [ofByte, bne_iff_ne, if_pos h, ite_not]

end Access

theorem Register.val_ofByte (b : UInt8) : (Register.ofByte b).val = (b &&& 0x3F).toNat := by
  rw [UInt8.toNat_and]
  exact (Nat.and_two_pow_sub_one_eq_mod b.toNat 6).symm

namespace Transaction

variable (t : Transaction)

def request? (b : UInt8) : Option BusRequest :=
  match t.stage with
  | .command | .first .readMemory | .first .writeMemory => none
  | .first (.readRegister r) => some (.readRegister r)
  | .first (.writeRegister r) => some (.writeRegister r b)
  | .later (.readRegister _) | .later (.writeRegister _) => none
  | .first .readFrame | .later .readFrame => some .popFrame
  | .first .writeFrame | .later .writeFrame => some (.pushFrame b)
  | .later .readMemory => some (.peekFrame t.address)
  | .later .writeMemory => some (.uploadFrame t.address b)

def shift (b : UInt8) : Transaction :=
  match t.stage with
  | .command => { t with stage := .first (.ofByte b) }
  | .first a => ⟨.later a, if a.isMemory then .ofByte b else t.address⟩
  | .later a => if a.isMemory then t.moveOn else t

def requests (t : Transaction) : List UInt8 → List (Option BusRequest)
  | [] => []
  | b :: r => t.request? b :: (t.shift b).requests r

/-! ### The bus without the chip -/

/-- The chip has no say in what is asked of it. -/
theorem exchange_eq (c : Chip G) (b : UInt8) : t.exchange c b =
    let r := (t.request? b).elim (0, c) c.serve
    (r.1, t.shift b, r.2) := by
  obtain ⟨stage, address⟩ := t
  cases stage with
  | command => rfl
  | first a => cases a <;> rfl
  | later a => cases a <;> rfl

theorem exchangeAll_eq (c : Chip G) (octets : List UInt8) :
    (t.exchangeAll c octets).1 = (c.serveAll (t.requests octets)).1 ∧
      (t.exchangeAll c octets).2.2 = (c.serveAll (t.requests octets)).2 := by
  induction octets generalizing t c with
  | nil => exact ⟨rfl, rfl⟩
  | cons b r ih =>
    simp only [exchangeAll, requests, Chip.serveAll, exchange_eq]
    obtain ⟨houts, hchip⟩ := ih (t.shift b) ((t.request? b).elim (0, c) c.serve).2
    exact ⟨congrArg (_ :: ·) houts, hchip⟩

/-- Behind its only octet of data a register access asks for nothing. -/
theorem requests_of_register {r : Register}
    (h : t.stage = .later (.readRegister r) ∨ t.stage = .later (.writeRegister r))
    (octets : List UInt8) : t.requests octets = List.replicate octets.length none := by
  induction octets with
  | nil => rfl
  | cons b rest ih =>
    have hsame : t.shift b = t := by rcases h with h | h <;> simp [shift, h, Access.isMemory]
    have hnone : t.request? b = none := by rcases h with h | h <;> simp [request?, h]
    simp only [requests, hsame, hnone, ih, List.length_cons, List.replicate_succ]

/-! ### Two transactions -/

section

variable [RandomWords G]

def perform (t : Transaction) (c : Chip G) : BusEvent → Option UInt8 × Transaction × Chip G
  | .restart => (none, t.restart, c)
  | .exchange b => (some (t.exchange c b).1, (t.exchange c b).2)
  | .elsewhere op => (none, t, c.after op)

/-- What is shifted out with every event, the access under way behind it, and the chip. -/
def course (t : Transaction) (c : Chip G) :
    List BusEvent → List (Option UInt8 × Option Access × Chip G)
  | [] => []
  | e :: es =>
    let (out, t, c) := t.perform c e
    (out, t.access?, c) :: t.course c es

end

/-- The transactions differ at most in an address that will be written before it is read. -/
structure Alike (t t' : Transaction) : Prop where
  stage_eq : t'.stage = t.stage
  address_eq : ∀ a, t.stage = .later a → a.isMemory = true → t'.address = t.address

theorem alike_restart (t t' : Transaction) : t.restart.Alike t'.restart := ⟨rfl, nofun⟩

variable {t} {t' : Transaction}

theorem Alike.access?_eq (h : t.Alike t') : t'.access? = t.access? := by
  simp only [access?, h.stage_eq]

theorem Alike.request?_eq (h : t.Alike t') (b : UInt8) : t'.request? b = t.request? b := by
  have haddress := h.address_eq
  unfold request?
  rw [h.stage_eq]
  cases hs : t.stage with
  | command => rfl
  | first a => cases a <;> rfl
  | later a =>
    cases a with
    | readMemory => simp only [haddress _ hs rfl]
    | writeMemory => simp only [haddress _ hs rfl]
    | _ => rfl

theorem Alike.shift (h : t.Alike t') (b : UInt8) : (t.shift b).Alike (t'.shift b) := by
  have haddress := h.address_eq
  unfold Transaction.shift
  rw [h.stage_eq]
  cases hs : t.stage with
  | command => exact ⟨rfl, nofun⟩
  | first a =>
    refine ⟨rfl, fun a' ha hmemory => ?_⟩
    cases ha
    simp only [if_pos hmemory]
  | later a =>
    cases hm : a.isMemory with
    | true =>
      simp only [hm, if_true]
      exact ⟨h.stage_eq, fun _ _ _ => congrArg FrameIndex.next (haddress a hs hm)⟩
    | false =>
      simp only [hm, Bool.false_eq_true, if_false]
      exact h

theorem Alike.requests_eq (h : t.Alike t') (octets : List UInt8) :
    t'.requests octets = t.requests octets := by
  induction octets generalizing t t' with
  | nil => rfl
  | cons b r ih => simp only [requests, h.request?_eq, ih (h.shift b)]

variable [RandomWords G]

theorem Alike.course_eq (h : t.Alike t') (c : Chip G) (events : List BusEvent) :
    t'.course c events = t.course c events := by
  induction events generalizing t t' c with
  | nil => rfl
  | cons e es ih =>
    cases e with
    | restart =>
      have halike := alike_restart t t'
      simp only [course, perform, halike.access?_eq, ih halike]
    | exchange b =>
      have halike := h.shift b
      simp only [course, perform, exchange_eq, h.request?_eq, halike.access?_eq, ih halike]
    | elsewhere op => simp only [course, perform, h.access?_eq, ih h]

/-- After a restart nothing is left of what came before on the bus. Whatever two transactions have
been, the same events bring the same octets out of the same chip, with the same access under way,
and leave the same chip. The command octet asks nothing of the chip, and gets a zero. If its bit 7
is set then the octet after it is one access to a register, whose address is in the low six bits of
the command, and all that come after that get zeros and ask for nothing. -/
theorem transactions_isolated (t t' : Transaction) (c : Chip G) :
    (∀ events, t'.restart.course c events = t.restart.course c events) ∧
    (∀ octets, (t.exchangeAll c octets).1 = (c.serveAll (t.requests octets)).1 ∧
      (t.exchangeAll c octets).2.2 = (c.serveAll (t.requests octets)).2) ∧
    (∀ b, (t.restart.exchangeAll c [b]).1 = [0] ∧ (t.restart.exchangeAll c [b]).2.2 = c) ∧
    ∀ b v rest, b &&& 0x80 ≠ 0 → ∃ r : Register, r.val = (b &&& 0x3F).toNat ∧
      let q : BusRequest := if b &&& 0x40 = 0 then .readRegister r else .writeRegister r v
      t.restart.requests (b :: v :: rest) = none :: some q :: List.replicate rest.length none ∧
      (t.restart.exchangeAll c (b :: v :: rest)).1 =
        0 :: (c.serve q).1 :: List.replicate rest.length 0 ∧
      (t.restart.exchangeAll c (b :: v :: rest)).2.2 = (c.serve q).2 := by
  refine ⟨(alike_restart t t').course_eq c, t.exchangeAll_eq c, fun b => ⟨rfl, rfl⟩,
    fun b v rest hb => ⟨.ofByte b, Register.val_ofByte b, ?_⟩⟩
  intro q
  have hrequests : t.restart.requests (b :: v :: rest) =
      none :: some q :: List.replicate rest.length none := by
    have hrest (a : Access) (ha : a = .readRegister (.ofByte b) ∨ a = .writeRegister (.ofByte b)) :
        requests ⟨.later a, t.address⟩ rest = List.replicate rest.length none :=
      requests_of_register _ (ha.imp (congrArg Stage.later) (congrArg Stage.later)) rest
    simp only [requests, request?, shift, restart, Access.ofByte_of_register hb, q]
    by_cases hw : b &&& 0x40 = 0
    · simp only [if_pos hw, Access.isMemory, Bool.false_eq_true, if_false, hrest _ (.inl rfl)]
    · simp only [if_neg hw, Access.isMemory, Bool.false_eq_true, if_false, hrest _ (.inr rfl)]
  obtain ⟨houts, hchip⟩ := t.restart.exchangeAll_eq c (b :: v :: rest)
  rw [hrequests] at houts hchip
  simp only [Chip.serveAll, Option.elim_none, Option.elim_some, Chip.serveAll_replicate_none]
    at houts hchip
  exact ⟨hrequests, houts, hchip⟩

end Transaction

namespace SerialRadio

variable {s s' : SerialRadio G}

/-- A transaction of a radio at rest does not depend on those before it. -/
theorem transfer_isolated (h : s.Idle) (h' : s'.Idle) (hc : s'.chip = s.chip)
    (octets : List UInt8) : (s'.transfer octets).1 = (s.transfer octets).1 ∧
      (s'.transfer octets).2.chip = (s.transfer octets).2.chip := by
  have hrequests := (s.transaction.alike_restart s'.transaction).requests_eq octets
  obtain ⟨houts, hchip⟩ := s.transaction.restart.exchangeAll_eq s.chip octets
  obtain ⟨houts', hchip'⟩ := s'.transaction.restart.exchangeAll_eq s.chip octets
  rw [transfer_of_idle h, transfer_of_idle h', hc]
  rw [hrequests] at houts' hchip'
  exact ⟨houts'.trans houts.symm, hchip'.trans hchip.symm⟩

end SerialRadio

end Transceiver
