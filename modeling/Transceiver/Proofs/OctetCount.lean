import Transceiver.Proofs.BusIsolation

/-!
# Transactions by the number of their octets

A transaction can also be followed by counting its octets, which is done up to the largest number
there is. Of that number no more matters than whether it is zero, one or greater, and that is the
stage of the transaction. So both are the same transaction, over any events and however long it
takes (`course_eq`).
-/

namespace Transceiver

variable {G : Type}

namespace FrameIndex

theorem val_ofByte (b : UInt8) : (ofByte b).val = (b &&& 0x7F).toNat := by
  rw [UInt8.toNat_and]
  exact (Nat.and_two_pow_sub_one_eq_mod b.toNat 7).symm

theorem ofByte_masked (b : UInt8) : ofByte (b &&& 0x7F) = ofByte b := by
  apply Fin.ext
  have hlt : (b &&& 0x7F).toNat < 128 := val_ofByte b ▸ (ofByte b).isLt
  rw [val_ofByte b]
  exact Nat.mod_eq_of_lt hlt

theorem ofByte_add_one (b : UInt8) : ofByte (b + 1) = (ofByte b).next := by
  apply Fin.ext
  have hsum : (b + 1).toNat = (b.toNat + 1) % 256 := UInt8.toNat_add b 1
  change (b + 1).toNat % 128 = (b.toNat % 128 + 1) % 128
  omega

end FrameIndex

/-- A transaction that counts its octets, from the one that gives the access. -/
structure CountedTransaction where
  count : UInt64
  access? : Option Access
  address : UInt8

namespace CountedTransaction

def initial : CountedTransaction := ⟨0, none, 0⟩

/-- One octet more, up to the largest number there is. -/
def countUp (n : UInt64) : UInt64 := if n + 1 = 0 then n else n + 1

variable (t : CountedTransaction)

def restart : CountedTransaction := { t with count := 0, access? := none }

def moveOn : CountedTransaction := { t with address := (t.address + 1) &&& 0x7F }

def exchangeData (c : Chip G) (b : UInt8) : Access → UInt8 × CountedTransaction × Chip G
  | .readRegister r =>
    if t.count = 2 then ((c.readRegister r).1, t, (c.readRegister r).2) else (0, t, c)
  | .writeRegister r => if t.count = 2 then (0, t, c.writeRegister r b) else (0, t, c)
  | .readFrame => ((c.popFrame.1).getD 0, t, c.popFrame.2)
  | .writeFrame => (0, t, (c.pushFrame b).2)
  | .readMemory =>
    if t.count = 2 then (0, { t with address := b &&& 0x7F }, c)
    else ((c.buffer.peek t.address.toNat).toOption.getD 0, t.moveOn, c)
  | .writeMemory =>
    if t.count = 2 then (0, { t with address := b &&& 0x7F }, c)
    else (0, t.moveOn, (c.uploadFrame t.address.toNat b).2)

def exchange (c : Chip G) (b : UInt8) : UInt8 × CountedTransaction × Chip G :=
  let t := { t with count := countUp t.count }
  if t.count = 1 then (0, { t with access? := some (.ofByte b) }, c)
  else
    match t.access? with
    | none => (0, t, c)
    | some a => t.exchangeData c b a

def stage : Stage :=
  match t.access? with
  | none => .command
  | some a => if t.count = 1 then .first a else .later a

def transaction : Transaction := ⟨t.stage, .ofByte t.address⟩

structure Sound : Prop where
  access?_eq_none_iff : t.access? = none ↔ t.count = 0
  address_lt : t.address.toNat < 128

variable {t}

/-! ### One octet -/

theorem countUp_ne_zero (n : UInt64) : countUp n ≠ 0 := by
  unfold countUp
  grind

theorem countUp_eq_one_iff {n : UInt64} : countUp n = 1 ↔ n = 0 := by
  unfold countUp
  grind

theorem countUp_eq_two_iff {n : UInt64} : countUp n = 2 ↔ n = 1 := by
  unfold countUp
  grind

theorem transaction_moveOn : t.moveOn.transaction = t.transaction.moveOn := by
  have haddress : FrameIndex.ofByte ((t.address + 1) &&& 0x7F) =
      (FrameIndex.ofByte t.address).next := by
    rw [FrameIndex.ofByte_masked, FrameIndex.ofByte_add_one]
  exact congrArg (Transaction.mk t.stage) haddress

theorem transaction_withAddress (b : UInt8) : transaction { t with address := b &&& 0x7F } =
    { t.transaction with address := .ofByte b } :=
  congrArg (Transaction.mk t.stage) (FrameIndex.ofByte_masked b)

theorem access?_transaction : t.transaction.access? = t.access? := by
  unfold transaction stage Transaction.access?
  cases t.access? with
  | none => rfl
  | some a => by_cases hone : t.count = 1 <;> simp [hone]

def staged (r : UInt8 × CountedTransaction × Chip G) : UInt8 × Transaction × Chip G :=
  (r.1, r.2.1.transaction, r.2.2)

theorem exchangeFirst_transaction (h : t.count = 2) (c : Chip G) (b : UInt8) (a : Access) :
    t.transaction.exchangeFirst c b a = staged (t.exchangeData c b a) := by
  cases a with
  | readMemory | writeMemory =>
    simp only [Transaction.exchangeFirst, exchangeData, if_pos h, staged, transaction_withAddress]
  | _ => simp only [Transaction.exchangeFirst, Transaction.exchangeRead, exchangeData, if_pos h,
      staged]

theorem exchangeLater_transaction (h : t.count ≠ 2) (hlt : t.address.toNat < 128) (c : Chip G)
    (b : UInt8) (a : Access) :
    t.transaction.exchangeLater c b a = staged (t.exchangeData c b a) := by
  have haddress : t.transaction.address.val = t.address.toNat := Nat.mod_eq_of_lt hlt
  cases a with
  | readMemory =>
    simp only [Transaction.exchangeLater, exchangeData, if_neg h, staged, transaction_moveOn,
      haddress, FrameBuffer.peek_of_lt hlt]
    rfl
  | writeMemory =>
    simp only [Transaction.exchangeLater, exchangeData, if_neg h, staged, transaction_moveOn,
      haddress]
  | _ => simp only [Transaction.exchangeLater, Transaction.exchangeRead, exchangeData, if_neg h,
      staged]

theorem exchange_transaction (h : t.Sound) (c : Chip G) (b : UInt8) :
    t.transaction.exchange c b = staged (t.exchange c b) := by
  let u : CountedTransaction := { t with count := countUp t.count }
  cases ha : t.access? with
  | none =>
    have hcount : t.count = 0 := h.access?_eq_none_iff.1 ha
    have hone : countUp t.count = 1 := countUp_eq_one_iff.2 hcount
    have hstage : t.stage = .command := by simp only [stage, ha]
    have hexchange : t.exchange c b =
        (0, { t with count := 1, access? := some (.ofByte b) }, c) := by
      simp only [exchange, hone, if_true]
    rw [hexchange]
    simp only [Transaction.exchange, transaction, hstage]
    rfl
  | some a =>
    have hcount : t.count ≠ 0 := fun h0 => by
      rw [h.access?_eq_none_iff.2 h0] at ha
      cases ha
    have hone : countUp t.count ≠ 1 := fun h1 => hcount (countUp_eq_one_iff.1 h1)
    have hu : u.transaction = ⟨.later a, .ofByte t.address⟩ := by
      simp only [u, transaction, stage, ha, if_neg hone]
    have hexchange : t.exchange c b = u.exchangeData c b a := by
      simp only [exchange, if_neg hone, ha, u]
    rw [hexchange]
    by_cases hfirst : t.count = 1
    · have hstage : t.stage = .first a := by simp only [stage, ha, if_pos hfirst]
      rw [← exchangeFirst_transaction (countUp_eq_two_iff.2 hfirst), hu]
      simp only [Transaction.exchange, transaction, hstage]
    · have hstage : t.stage = .later a := by simp only [stage, ha, if_neg hfirst]
      have htwo : u.count ≠ 2 := fun h2 => hfirst (countUp_eq_two_iff.1 h2)
      rw [← exchangeLater_transaction htwo h.address_lt, hu]
      simp only [Transaction.exchange, transaction, hstage]

theorem sound_initial : initial.Sound := ⟨iff_of_true rfl rfl, by decide⟩

theorem Sound.restart (h : t.Sound) : t.restart.Sound := ⟨iff_of_true rfl rfl, h.address_lt⟩

theorem Sound.setAddress (h : t.Sound) (b : UInt8) : Sound { t with address := b &&& 0x7F } where
  access?_eq_none_iff := h.access?_eq_none_iff
  address_lt := by
    rw [← FrameIndex.val_ofByte]
    exact (FrameIndex.ofByte b).isLt

theorem Sound.exchangeData (h : t.Sound) (c : Chip G) (b : UInt8) (a : Access) :
    (t.exchangeData c b a).2.1.Sound := by
  cases a with
  | readFrame | writeFrame => exact h
  | readRegister r | writeRegister r =>
    simp only [CountedTransaction.exchangeData]
    split
    · exact h
    · exact h
  | readMemory | writeMemory =>
    simp only [CountedTransaction.exchangeData]
    split
    · exact h.setAddress b
    · exact h.setAddress (t.address + 1)

theorem Sound.exchange (h : t.Sound) (c : Chip G) (b : UInt8) : (t.exchange c b).2.1.Sound := by
  unfold CountedTransaction.exchange
  by_cases hone : countUp t.count = 1
  · simp only [hone, if_true]
    have hne : (1 : UInt64) ≠ 0 := by decide
    exact ⟨iff_of_false (Option.some_ne_none _) hne, h.address_lt⟩
  · have hcount : t.count ≠ 0 := fun h0 => hone (countUp_eq_one_iff.2 h0)
    have hsome : t.access? ≠ none := fun hnone => hcount (h.access?_eq_none_iff.1 hnone)
    have hnext : Sound { t with count := countUp t.count } :=
      ⟨iff_of_false hsome (countUp_ne_zero _), h.address_lt⟩
    obtain ⟨a, ha⟩ := Option.ne_none_iff_exists'.1 hsome
    rw [ha] at hnext
    simp only [if_neg hone, ha]
    exact hnext.exchangeData c b a

/-! ### Any events -/

section

variable [RandomWords G]

def perform (t : CountedTransaction) (c : Chip G) :
    BusEvent → Option UInt8 × CountedTransaction × Chip G
  | .restart => (none, t.restart, c)
  | .exchange b => (some (t.exchange c b).1, (t.exchange c b).2)
  | .elsewhere op => (none, t, c.after op)

def course (t : CountedTransaction) (c : Chip G) :
    List BusEvent → List (Option UInt8 × Option Access × Chip G)
  | [] => []
  | e :: es =>
    let (out, t, c) := t.perform c e
    (out, t.access?, c) :: t.course c es

/-- A transaction that counts its octets is the one that goes through the stages: with the same
events the same octets are shifted out, with the same access under way and the same chip. -/
theorem course_eq (h : t.Sound) (c : Chip G) (events : List BusEvent) :
    t.course c events = t.transaction.course c events := by
  induction events generalizing t c with
  | nil => rfl
  | cons e es ih =>
    cases e with
    | restart =>
      have hrestart : t.restart.transaction = t.transaction.restart := rfl
      simp only [course, perform, Transaction.course, Transaction.perform, ← hrestart,
        ih h.restart, access?_transaction]
    | exchange b =>
      simp only [course, perform, Transaction.course, Transaction.perform,
        exchange_transaction h, staged, ih (h.exchange c b), access?_transaction]
    | elsewhere op =>
      simp only [course, perform, Transaction.course, Transaction.perform, ih h,
        access?_transaction]

theorem course_initial (c : Chip G) (events : List BusEvent) :
    initial.course c events = Transaction.initial.course c events :=
  course_eq sound_initial c events

end

end CountedTransaction

end Transceiver
