import Transceiver.Proofs.FrameReception

/-!
# Frames in a stream of octets

What a stream of octets says, read as a whole and without a framer. `OctetStream.effects` looks for
the first start delimiter, takes as many octets behind it as the length announces, passes over one
more, and goes on with the rest. The receive framer reads the same stream octet by octet, with no
more than a few numbers to remember, and comes to the same effects: `effects_start`. In particular
frames that follow one another, each behind a preamble of its own, are all delivered.
-/

namespace Transceiver

namespace OctetStream

def behindDelimiter? : List UInt8 → Option (List UInt8)
  | a :: b :: r => if a = 0 ∧ b = startDelimiter then some r else behindDelimiter? (b :: r)
  | _ => none

def filtered (autoFcs : Bool) (length : Nat) : Nat := if autoFcs then length - 2 else length

/-- The octets of a frame from the `k`-th on, each of them stored. Behind those at its offsets the
filter is asked, as far as the first `n` octets go. -/
def stored (n k : Nat) (octets : List UInt8) : List ReceiveEffect :=
  (octets.zipIdx k).flatMap fun (b, k) =>
    .push b :: if k ≤ n ∧ k ∈ checkOffsets then [.filterCheck k] else []

def verdict (autoFcs : Bool) (length : Nat) (octets : List UInt8) : Option Bool :=
  if autoFcs then
    some (octets.drop (length - 2) = Crc.octets (Crc.ofList (octets.take (length - 2))))
  else none

def completion (autoFcs : Bool) (length : Nat) (octets : List UInt8) : List ReceiveEffect :=
  if octets.length < length then []
  else [.frameComplete (verdict autoFcs length octets)]

def frame (autoFcs : Bool) (length : UInt8) (octets : List UInt8) : List ReceiveEffect :=
  .frameStart length :: stored (filtered autoFcs length.toNat) 1 octets ++
    completion autoFcs length.toNat octets

def IsVoid (autoFcs : Bool) (length : UInt8) : Prop := length = 0 ∨ autoFcs = true ∧ length < 2

instance (autoFcs : Bool) (length : UInt8) : Decidable (IsVoid autoFcs length) :=
  inferInstanceAs (Decidable (_ ∨ _))

theorem length_behindDelimiter? {s r : List UInt8} (h : behindDelimiter? s = some r) :
    r.length < s.length := by
  induction s using behindDelimiter?.induct with
  | case1 a b t hd =>
    rw [behindDelimiter?, if_pos hd] at h
    cases h
    simp only [List.length_cons]
    omega
  | case2 a b t hd ih =>
    rw [behindDelimiter?, if_neg hd] at h
    have := ih h
    simp only [List.length_cons] at this ⊢
    omega
  | case3 s hs =>
    unfold behindDelimiter? at h
    split at h
    · exact absurd rfl (hs _ _ _)
    · cases h

theorem length_drop_lt (n : Nat) (b : UInt8) (r : List UInt8) :
    (r.drop n).length < (b :: r).length := by
  rw [List.length_drop, List.length_cons]
  exact Nat.lt_succ_of_le (Nat.sub_le _ _)

mutual

def effects (autoFcs : Bool) (stream : List UInt8) : List ReceiveEffect :=
  match h : behindDelimiter? stream with
  | none => []
  | some r =>
    have := length_behindDelimiter? h
    .raise .rxStart :: announced autoFcs r
termination_by stream.length
decreasing_by exact this

/-- The effects that the octets behind a start delimiter call for: the low seven bits of the first
one announce a frame, and the octet behind that frame only ends it. -/
def announced (autoFcs : Bool) : List UInt8 → List ReceiveEffect
  | [] => []
  | b :: r =>
    let length := b &&& 0x7F
    if IsVoid autoFcs length then effects autoFcs r
    else
      frame autoFcs length (r.take length.toNat) ++
        if length.toNat < r.length then
          .endOfFrame true :: effects autoFcs (r.drop (length.toNat + 1))
        else []
termination_by stream => stream.length
decreasing_by
  · exact Nat.lt_succ_self _
  · exact length_drop_lt _ b r

end

theorem stored_append (n k : Nat) (l r : List UInt8) :
    stored n k (l ++ r) = stored n k l ++ stored n (k + l.length) r := by
  unfold stored
  rw [List.zipIdx_append, List.flatMap_append]

theorem stored_cons (n k : Nat) (b : UInt8) (r : List UInt8) :
    stored n k (b :: r) = stored n k [b] ++ stored n (k + 1) r :=
  stored_append n k [b] r

theorem stored_singleton (n k : Nat) (b : UInt8) : stored n k [b] =
    .push b :: if k ≤ n ∧ k ∈ checkOffsets then [.filterCheck k] else [] := by
  simp only [stored, List.zipIdx_cons, List.zipIdx_nil, List.flatMap_cons, List.flatMap_nil,
    List.append_nil]

theorem effects_of_none {autoFcs : Bool} {s : List UInt8} (h : behindDelimiter? s = none) :
    effects autoFcs s = [] := by
  unfold effects
  split
  · rfl
  · rename_i r hr
    cases h.symm.trans hr

theorem effects_of_some {autoFcs : Bool} {s r : List UInt8} (h : behindDelimiter? s = some r) :
    effects autoFcs s = .raise .rxStart :: announced autoFcs r := by
  rw [effects]
  split
  · rename_i hn
    cases h.symm.trans hn
  · rename_i r' hr
    cases h.symm.trans hr
    rfl

theorem effects_congr {autoFcs : Bool} {s t : List UInt8}
    (h : behindDelimiter? s = behindDelimiter? t) : effects autoFcs s = effects autoFcs t := by
  cases ht : behindDelimiter? t with
  | none => rw [effects_of_none ht, effects_of_none (h.trans ht)]
  | some r => rw [effects_of_some ht, effects_of_some (h.trans ht)]

/-- Of octets before a start delimiter only the last one can matter, and only if it is a zero. -/
theorem behindDelimiter?_cons {a b : UInt8} (h : ¬(a = 0 ∧ b = startDelimiter)) (r : List UInt8) :
    behindDelimiter? (a :: b :: r) = behindDelimiter? (b :: r) := by
  rw [behindDelimiter?, if_neg h]

theorem behindDelimiter?_of_ne_zero {a : UInt8} (h : a ≠ 0) (r : List UInt8) :
    behindDelimiter? (a :: r) = behindDelimiter? r := by
  cases r with
  | nil => rfl
  | cons b r => exact behindDelimiter?_cons (fun hd => h hd.1) r

theorem behindDelimiter?_zero {b : UInt8} (h : b ≠ startDelimiter) (r : List UInt8) :
    behindDelimiter? (0 :: b :: r) = behindDelimiter? (b :: r) :=
  behindDelimiter?_cons (fun hd => h hd.2) r

end OctetStream

namespace ReceiveFramer

open OctetStream

def effects (f : ReceiveFramer) (autoFcs : Bool) (octets : List UInt8) : List ReceiveEffect :=
  (f.run (octets.map fun b => ⟨b, true, autoFcs⟩)).2.flatMap ReceiveOutput.effects

variable {f g : ReceiveFramer} {autoFcs : Bool} {l : Nat} {p : List UInt8}

theorem effects_nil (f : ReceiveFramer) (autoFcs : Bool) : f.effects autoFcs [] = [] := rfl

theorem effects_cons (hd : f.phase ≠ .done) (b : UInt8) (s : List UInt8) :
    f.effects autoFcs (b :: s) =
      (f.hear b autoFcs).2 ++ (f.hear b autoFcs).1.effects autoFcs s := by
  have hstep := step_of_carrier (i := ⟨b, true, autoFcs⟩) hd rfl
  simp only [effects, List.map_cons, run, hstep, List.flatMap_cons]

theorem effects_of_done (hd : f.phase = .done) (b : UInt8) (s : List UInt8) :
    f.effects autoFcs (b :: s) =
      .endOfFrame true :: { f with phase := .scanning : ReceiveFramer }.effects autoFcs s := by
  have hstep := step_of_done (i := ⟨b, true, autoFcs⟩) hd
  simp only [effects, List.map_cons, run, hstep, List.flatMap_cons]
  rfl

inductive Within (autoFcs : Bool) (l : Nat) : List UInt8 → ReceiveFramer → Prop where
  | body {p : List UInt8} {f : ReceiveFramer} (phase_eq : f.phase = .inPacket)
      (length_eq : f.length.toNat = l) (counter_eq : f.counter.toNat = p.length)
      (crc_eq : autoFcs = true → f.crc = Crc.ofList p) (more : p.length < filtered autoFcs l) :
      Within autoFcs l p f
  | checks {p : List UInt8} {f : ReceiveFramer} (fcs : autoFcs = true)
      (phase_eq : f.phase = .check1) (crc_eq : f.crc = Crc.ofList p)
      (two_left : p.length + 2 = l) : Within autoFcs l p f
  | lastCheck {p : List UInt8} {x : UInt8} {f : ReceiveFramer} (fcs : autoFcs = true)
      (phase_eq : f.phase = .check2) (crc_eq : f.crc = Crc.ofList p) (first_eq : f.firstCheck = x)
      (two_left : p.length + 2 = l) : Within autoFcs l (p ++ [x]) f

theorem Within.ne_done (h : Within autoFcs l p f) : f.phase ≠ .done := by
  cases h with
  | body phase_eq | checks _ phase_eq | lastCheck _ phase_eq => simp [phase_eq]

theorem verdict_of_checks (hl : p.length + 2 = l) (x y : UInt8) :
    verdict true l (p ++ [x, y]) = some (Crc.accepts (Crc.ofList p) x y) := by
  have hbody : l - 2 = p.length := by omega
  have htaken : (p ++ [x, y]).take p.length = p := List.take_left
  have hchecks : (p ++ [x, y]).drop p.length = [x, y] := List.drop_left
  simp only [verdict, if_true, hbody, htaken, hchecks, Option.some.injEq]
  rw [Bool.eq_iff_iff, Crc.accepts_iff, decide_eq_true_iff, eq_comm]

inductive Proceeds (autoFcs : Bool) (l : Nat) (p : List UInt8) (b : UInt8) :
    ReceiveFramer × List ReceiveEffect → Prop where
  | more {g : ReceiveFramer} (left : p.length + 1 < l) (h : Within autoFcs l (p ++ [b]) g) :
      Proceeds autoFcs l p b (g, stored (filtered autoFcs l) (p.length + 1) [b])
  | last {g : ReceiveFramer} (left : p.length + 1 = l) (phase_eq : g.phase = .done) :
      Proceeds autoFcs l p b (g, stored (filtered autoFcs l) (p.length + 1) [b] ++
        [.frameComplete (verdict autoFcs l (p ++ [b]))])

theorem Within.body_or_checks {b : UInt8} (hl : g.length.toNat = l)
    (hc : g.counter.toNat = p.length + 1) (hcrc : g.crc = Crc.feed (Crc.ofList p) b)
    (hp : g.phase = if l - 2 ≤ p.length + 1 then .check1 else .inPacket)
    (hmore : p.length < filtered true l) : Within true l (p ++ [b]) g := by
  have hn : filtered true l = l - 2 := rfl
  have hlength : (p ++ [b]).length = p.length + 1 := by simp
  have hfed : g.crc = Crc.ofList (p ++ [b]) := hcrc.trans (Crc.ofList_concat p b).symm
  by_cases hend : l - 2 ≤ p.length + 1
  · rw [if_pos hend] at hp
    exact .checks rfl hp hfed (by omega)
  · rw [if_neg hend] at hp
    exact .body hp hl (hlength ▸ hc) (fun _ => hfed) (by omega)

theorem proceeds_takeOctet (hp : f.phase = .inPacket) (hl : f.length.toNat = l)
    (hc : f.counter.toNat = p.length) (hcrc : autoFcs = true → f.crc = Crc.ofList p)
    (hmore : p.length < filtered autoFcs l) (b : UInt8) :
    Proceeds autoFcs l p b (f.takeOctet b autoFcs) := by
  have hle : p.length + 1 ≤ l := by
    unfold filtered at hmore
    split at hmore <;> omega
  have hcounter : (f.counter + 1).toNat = p.length + 1 := by
    rw [toNat_counter_succ (by omega), hc]
  have hstored : stored (filtered autoFcs l) (p.length + 1) [b] = .push b ::
      if p.length + 1 ∈ checkOffsets then [.filterCheck (p.length + 1)] else [] := by
    have hseen : p.length + 1 ≤ filtered autoFcs l := hmore
    simp only [stored_singleton, hseen, true_and]
  unfold takeOctet
  simp only [hcounter, ← hstored]
  cases autoFcs with
  | true =>
    have hend : withoutFcs f.length ≤ f.counter + 1 ↔ l - 2 ≤ p.length + 1 := by
      rw [UInt8.le_iff_toNat_le, toNat_withoutFcs, hl, hcounter]
    have hroom : p.length < l - 2 := hmore
    refine .more (by omega) (.body_or_checks hl hcounter ?_ ?_ hmore)
    · exact congrArg (Crc.feed · b) (hcrc rfl)
    · simp only [hend]
  | false =>
    have hend : f.length ≤ f.counter + 1 ↔ l ≤ p.length + 1 := by
      rw [UInt8.le_iff_toNat_le, hl, hcounter]
    by_cases hlast : l ≤ p.length + 1
    · have hlast' := hend.2 hlast
      simp only [Bool.false_eq_true, if_false, if_pos hlast']
      exact .last (by omega) rfl
    · have hlast' : ¬f.length ≤ f.counter + 1 := fun h => hlast (hend.1 h)
      have hlength : (p ++ [b]).length = p.length + 1 := by simp
      have hn : filtered false l = l := rfl
      simp only [Bool.false_eq_true, if_false, if_neg hlast']
      refine .more (by omega) (.body hp hl ?_ nofun (by omega))
      exact hcounter.trans hlength.symm

theorem Within.hear (h : Within autoFcs l p f) (b : UInt8) :
    Proceeds autoFcs l p b (f.hear b autoFcs) := by
  cases h with
  | body hp hl hc hcrc hmore =>
    have hheard : f.hear b autoFcs = f.takeOctet b autoFcs := by
      unfold ReceiveFramer.hear
      rw [hp]
    rw [hheard]
    exact proceeds_takeOctet hp hl hc hcrc hmore b
  | checks hfcs hp hcrc hl =>
    subst hfcs
    have hheard : f.hear b true = ({ f with phase := .check2, firstCheck := b }, [.push b]) := by
      unfold ReceiveFramer.hear
      rw [hp]
    have hbehind : ¬p.length + 1 ≤ filtered true l := by
      change ¬p.length + 1 ≤ l - 2
      omega
    have hstored : stored (filtered true l) (p.length + 1) [b] = [.push b] := by
      simp only [stored_singleton, hbehind, false_and, if_false]
    rw [hheard, ← hstored]
    exact .more (by omega) (.lastCheck rfl rfl hcrc rfl hl)
  | @lastCheck p x _ hfcs hp hcrc hfirst hl =>
    subst hfcs
    have hlength : (p ++ [x]).length = p.length + 1 := by simp
    have hheard : f.hear b true = ({ f with phase := .done },
        [.push b] ++ [.frameComplete (some (Crc.accepts f.crc f.firstCheck b))]) := by
      unfold ReceiveFramer.hear
      rw [hp]
      rfl
    have hbehind : ¬(p ++ [x]).length + 1 ≤ filtered true l := by
      change ¬(p ++ [x]).length + 1 ≤ l - 2
      omega
    have hstored : stored (filtered true l) ((p ++ [x]).length + 1) [b] = [.push b] := by
      simp only [stored_singleton, hbehind, false_and, if_false]
    have hverdict : verdict true l (p ++ [x] ++ [b]) = _ :=
      (congrArg (verdict true l) (List.append_assoc p [x] [b])).trans (verdict_of_checks hl x b)
    rw [hheard, hcrc, hfirst, ← hstored, ← hverdict]
    exact .last (by omega) rfl

theorem Within.length_lt (h : Within autoFcs l p f) : p.length < l := by
  cases h with
  | body _ _ _ _ hmore =>
    unfold filtered at hmore
    split at hmore <;> omega
  | checks => omega
  | lastCheck =>
    rw [List.length_append, List.length_singleton]
    omega

/-- The octet behind a complete frame only ends it. -/
theorem effects_behind_frame (hd : f.phase = .done) (s : List UInt8) :
    f.effects autoFcs s = if 0 < s.length then
      .endOfFrame true :: { f with phase := .scanning : ReceiveFramer }.effects autoFcs (s.drop 1)
      else [] := by
  cases s with
  | nil => rfl
  | cons b s =>
    rw [effects_of_done hd, List.length_cons, if_pos (Nat.zero_lt_succ _)]
    rfl

/-- The rest of a frame, as much of it as there is, and what follows it. -/
theorem Within.effects_eq (h : Within autoFcs l p f) {m : Nat} (hm : p.length + m = l)
    (s : List UInt8) : ∃ g : ReceiveFramer, g.phase = .scanning ∧ f.effects autoFcs s =
      stored (filtered autoFcs l) (p.length + 1) (s.take m) ++
        completion autoFcs l (p ++ s.take m) ++
          if m < s.length then .endOfFrame true :: g.effects autoFcs (s.drop (m + 1)) else [] := by
  induction s generalizing p f m with
  | nil =>
    have hlt := h.length_lt
    have hopen : completion autoFcs l (p ++ [].take m) = [] := by
      rw [List.take_nil, List.append_nil, completion, if_pos hlt]
    refine ⟨{ f with phase := .scanning }, rfl, ?_⟩
    rw [effects_nil, hopen, List.length_nil, if_neg (Nat.not_lt_zero m), List.take_nil]
    rfl
  | cons b s ih =>
    obtain ⟨m, rfl⟩ : ∃ k, m = k + 1 := ⟨m - 1, by have := h.length_lt; omega⟩
    have hlength : (p ++ [b]).length = p.length + 1 := by simp
    have htake : p ++ (b :: s).take (m + 1) = p ++ [b] ++ s.take m := by simp
    have hlt : m + 1 < (b :: s).length ↔ m < s.length := by simp
    have hheard := h.hear b
    rw [effects_cons h.ne_done, List.take_succ_cons, stored_cons, ← List.take_succ_cons, htake]
    simp only [hlt, List.drop_succ_cons]
    generalize f.hear b autoFcs = r at hheard
    cases hheard with
    | more _ hg =>
      obtain ⟨k, hk, heffects⟩ := ih hg (m := m) (by omega)
      refine ⟨k, hk, ?_⟩
      rw [heffects, hlength]
      simp only [List.append_assoc]
    | @last g hlast hd =>
      obtain rfl : m = 0 := by omega
      have hcomplete : completion autoFcs l (p ++ [b] ++ s.take 0) =
          [.frameComplete (verdict autoFcs l (p ++ [b]))] := by
        rw [List.take_zero, List.append_nil, completion, if_neg (by omega)]
      refine ⟨{ g with phase := .scanning }, rfl, ?_⟩
      rw [effects_behind_frame hd, hcomplete]
      simp [stored]

/-- Behind a start delimiter the framer either passes over the length or is within a frame. -/
theorem openFrame_void_or_within (f : ReceiveFramer) (b : UInt8) (autoFcs : Bool) :
    (IsVoid autoFcs (b &&& 0x7F) ∧ ∃ g : ReceiveFramer, g.phase = .scanning ∧
      f.openFrame b autoFcs = (g, [])) ∨
    (¬IsVoid autoFcs (b &&& 0x7F) ∧ ∃ g, Within autoFcs (b &&& 0x7F).toNat [] g ∧
      f.openFrame b autoFcs = (g, [.frameStart (b &&& 0x7F)])) := by
  have hvoid : (b &&& 0x7F = 0 ∨ b &&& 0x7F < if autoFcs then 2 else 0) ↔
      IsVoid autoFcs (b &&& 0x7F) := by
    cases autoFcs <;> simp [IsVoid]
  unfold openFrame
  generalize b &&& 0x7F = length at hvoid ⊢
  simp only [hvoid]
  by_cases h : IsVoid autoFcs length
  · rw [if_pos h]
    exact .inl ⟨h, _, rfl, rfl⟩
  · rw [if_neg h]
    refine .inr ⟨h, _, ?_, rfl⟩
    have hzero : length.toNat ≠ 0 := fun hz => h (.inl (UInt8.toNat_inj.1 hz))
    cases autoFcs with
    | true =>
      have htwo : 2 ≤ length.toNat := by
        have hle : ¬length < 2 := fun hlt => h (.inr ⟨rfl, hlt⟩)
        exact UInt8.le_iff_toNat_le.1 (UInt8.not_lt.1 hle)
      by_cases he : length = 2
      · subst he
        exact .checks rfl rfl rfl rfl
      · have hne : length.toNat ≠ 2 := fun hl => he (UInt8.toNat_inj.1 hl)
        refine .body (if_neg he) rfl rfl (fun _ => rfl) ?_
        change 0 < length.toNat - 2
        omega
    | false =>
      have hne : length ≠ 0 := fun hz => h (.inl hz)
      exact .body (if_neg hne) rfl rfl nofun (Nat.pos_of_ne_zero hzero)

/-- Outside of a frame the framer finds what the stream says, with the zero in front that it may
have heard before. -/
theorem effects_outside (autoFcs : Bool) (s : List UInt8) :
    (∀ f : ReceiveFramer, f.phase = .scanning →
      f.effects autoFcs s = OctetStream.effects autoFcs s) ∧
    (∀ f : ReceiveFramer, f.phase = .matched1 →
      f.effects autoFcs s = OctetStream.effects autoFcs (0 :: s)) ∧
    (∀ f : ReceiveFramer, f.phase = .matched2 → f.effects autoFcs s = announced autoFcs s) := by
  induction hn : s.length using Nat.strongRecOn generalizing s with
  | ind n ih =>
    cases s with
    | nil =>
      refine ⟨fun f _ => ?_, fun f _ => ?_, fun f _ => ?_⟩
      · exact (effects_of_none rfl).symm
      · exact (effects_of_none rfl).symm
      · rw [announced]
        rfl
    | cons b s =>
      rw [List.length_cons] at hn
      obtain ⟨hscanning, hmatched1, hmatched2⟩ := ih s.length (by omega) s rfl
      have hscan (f : ReceiveFramer) : (f.scan b).2 ++ (f.scan b).1.effects autoFcs s =
          OctetStream.effects autoFcs (b :: s) := by
        by_cases hb : b = 0
        · rw [hb]
          exact hmatched1 _ rfl
        · rw [effects_congr (behindDelimiter?_of_ne_zero hb s)]
          exact hscanning _ (if_neg hb)
      refine ⟨fun f hf => ?_, fun f hf => ?_, fun f hf => ?_⟩
      · have hheard : f.hear b autoFcs = f.scan b := by
          unfold ReceiveFramer.hear
          rw [hf]
        rw [effects_cons (by simp [hf]), hheard, hscan]
      · rw [effects_cons (by simp [hf])]
        unfold ReceiveFramer.hear
        simp only [hf]
        by_cases hb : b = startDelimiter
        · have hdelimiter : behindDelimiter? (0 :: b :: s) = some s := by
            rw [behindDelimiter?, if_pos ⟨rfl, hb⟩]
          rw [if_pos hb, effects_of_some hdelimiter, hmatched2 _ rfl]
          rfl
        · rw [if_neg hb, hscan, effects_congr (behindDelimiter?_zero hb s)]
      · have hheard : f.hear b autoFcs = f.openFrame b autoFcs := by
          unfold ReceiveFramer.hear
          rw [hf]
        rw [effects_cons (by simp [hf]), hheard, announced]
        rcases f.openFrame_void_or_within b autoFcs with
          ⟨hvoid, g, hg, hopen⟩ | ⟨hroom, g, hg, hopen⟩
        · rw [hopen, if_pos hvoid, hscanning g hg]
          rfl
        · obtain ⟨k, hk, heffects⟩ := hg.effects_eq (Nat.zero_add _) s
          have hrest := (ih (s.drop ((b &&& 0x7F).toNat + 1)).length
            (by rw [List.length_drop]; omega) _ rfl).1 k hk
          rw [hopen, if_neg hroom, heffects, hrest]
          rfl

theorem effects_start (autoFcs : Bool) (stream : List UInt8) :
    start.effects autoFcs stream = OctetStream.effects autoFcs stream :=
  (effects_outside autoFcs stream).1 start rfl

end ReceiveFramer

/-! ### Frames one behind the other -/

/-- A frame as it is sent: an octet whose low seven bits are the length, and so many octets. -/
structure SentFrame (autoFcs : Bool) where
  lengthOctet : UInt8
  octets : List UInt8
  room : ¬OctetStream.IsVoid autoFcs (lengthOctet &&& 0x7F)
  length_eq : octets.length = (lengthOctet &&& 0x7F).toNat

namespace SentFrame

variable {autoFcs : Bool} (x : SentFrame autoFcs)

def wire : List UInt8 := syncHeader ++ x.lengthOctet :: x.octets

def delivery : List ReceiveEffect :=
  .raise .rxStart :: OctetStream.frame autoFcs (x.lengthOctet &&& 0x7F) x.octets

end SentFrame

namespace OctetStream

variable {autoFcs : Bool}

theorem behindDelimiter?_zeros (n : Nat) (r : List UInt8) :
    behindDelimiter? (List.replicate n 0 ++ 0 :: startDelimiter :: r) = some r := by
  induction n with
  | zero => exact if_pos ⟨rfl, rfl⟩
  | succ n ih =>
    have hzero : (0 : UInt8) ≠ startDelimiter := by decide
    rw [List.replicate_succ, List.cons_append, ← ih]
    cases n with
    | zero => exact behindDelimiter?_zero hzero _
    | succ n => exact behindDelimiter?_zero hzero _

theorem announced_sentFrame (x : SentFrame autoFcs) (r : List UInt8) :
    announced autoFcs (x.lengthOctet :: x.octets ++ r) =
      frame autoFcs (x.lengthOctet &&& 0x7F) x.octets ++
        if 0 < r.length then .endOfFrame true :: effects autoFcs (r.drop 1) else [] := by
  have htake : (x.octets ++ r).take x.octets.length = x.octets := List.take_left
  have hdrop : (x.octets ++ r).drop (x.octets.length + 1) = r.drop 1 := by
    rw [← List.drop_drop, List.drop_left]
  have hlt : x.octets.length < (x.octets ++ r).length ↔ 0 < r.length := by
    rw [List.length_append]
    omega
  rw [List.cons_append, announced, if_neg x.room, ← x.length_eq, htake, hdrop]
  simp only [hlt]

theorem effects_wire (x : SentFrame autoFcs) (r : List UInt8) :
    effects autoFcs (x.wire ++ r) = x.delivery ++
      if 0 < r.length then .endOfFrame true :: effects autoFcs (r.drop 1) else [] := by
  have hfound : behindDelimiter? (x.wire ++ r) = some (x.lengthOctet :: x.octets ++ r) :=
    behindDelimiter?_zeros 3 (x.lengthOctet :: x.octets ++ r)
  rw [effects_of_some hfound, announced_sentFrame]
  rfl

/-- The octet that ends the frame before may be the first one of a preamble. -/
theorem effects_drop_wire (x : SentFrame autoFcs) (r : List UInt8) :
    effects autoFcs ((x.wire ++ r).drop 1) = effects autoFcs (x.wire ++ r) :=
  effects_congr ((behindDelimiter?_zeros 2 (x.lengthOctet :: x.octets ++ r)).trans
    (behindDelimiter?_zeros 3 (x.lengthOctet :: x.octets ++ r)).symm)

theorem effects_wires (frames : List (SentFrame autoFcs)) :
    effects autoFcs (frames.flatMap SentFrame.wire) =
      [.endOfFrame true].intercalate (frames.map SentFrame.delivery) := by
  induction frames with
  | nil => exact effects_of_none rfl
  | cons x r ih =>
    rw [List.flatMap_cons, effects_wire]
    cases r with
    | nil => simp [List.intercalate]
    | cons y r =>
      have hmore : 0 < ((y :: r).flatMap SentFrame.wire).length := by
        rw [List.flatMap_cons]
        exact Nat.zero_lt_succ _
      rw [if_pos hmore]
      rw [List.flatMap_cons] at ih ⊢
      rw [effects_drop_wire, ih]
      simp [List.intercalate]

/-- The receive framer is the reader of streams. Whatever the octets that it hears from its start
on, with a carrier all the time and one setting of the check sequence, it asks for the effects that
the stream says, in their order. In particular, of frames that come one behind the other, each with
a preamble of its own, every one is delivered once and in its turn, and only an end of frame stands
between two of them. -/
theorem framer_reads_stream (autoFcs : Bool) :
    (∀ stream, ReceiveFramer.start.effects autoFcs stream = effects autoFcs stream) ∧
    ∀ frames : List (SentFrame autoFcs),
      ReceiveFramer.start.effects autoFcs (frames.flatMap SentFrame.wire) =
        [.endOfFrame true].intercalate (frames.map SentFrame.delivery) := by
  refine ⟨ReceiveFramer.effects_start autoFcs, fun frames => ?_⟩
  rw [ReceiveFramer.effects_start, effects_wires]

end OctetStream

end Transceiver
