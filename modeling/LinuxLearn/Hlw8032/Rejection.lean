import LinuxLearn.Hlw8032.Extraction

/-!
# Rejection — packets that the decoder refuses

The checksum of `DealUartInf` covers bytes 2 to 22 modulo 256, so a packet with one wrong byte among
them, or with a wrong checksum, is refused.  A refused call leaves no trace: the static variables
and `runingInf` stay as they are, and the other calls of a run return what they return without it.
-/

namespace LinuxLearn
namespace Hlw8032

open Lib

/-! ## One wrong byte -/

/-- `q` is `p` with another byte at index `i`. -/
def DiffersOnlyAt (p q : Packet) (i : Fin 24) : Prop :=
  q.get i ≠ p.get i ∧ ∀ j, j ≠ i → q.get j = p.get j

theorem summed_lt (j : Fin 21) : j.val + 2 < 24 := by
  omega

/-- The bytes that the checksum covers. -/
def summedByte (b : Packet) (j : Fin 21) : Nat :=
  (b.get ⟨j.val + 2, summed_lt j⟩).toNat

theorem checksum_eq_sum (b : Packet) : checksum b = (∑ j : Fin 21, summedByte b j) % 256 := by
  have hfold : ∀ (js : List (Fin 21)) (s : Nat),
      js.foldl (fun sum j => sum + b[j.val + 2].toNat) s = s + (js.map (summedByte b)).sum := by
    intro js
    induction js with
    | nil => simp
    | cons j js ih =>
        intro s
        have hbyte : b[j.val + 2].toNat = summedByte b j := rfl
        rw [List.foldl_cons, ih, List.map_cons, List.sum_cons, hbyte, Nat.add_assoc]
  have hmask : (0xFF : Nat) = 2 ^ 8 - 1 := by decide
  rw [checksum, hfold, Nat.zero_add, Fin.sum_univ_def, hmask, Nat.and_two_pow_sub_one_eq_mod]

section OneByte

variable {p q : Packet} {i : Fin 24}

/-- A byte that the checksum covers makes it another one. -/
theorem checksum_ne (h : DiffersOnlyAt p q i) (hlow : 2 ≤ i.val) (hhigh : i.val ≤ 22) :
    checksum q ≠ checksum p := by
  let k : Fin 21 := ⟨i.val - 2, by omega⟩
  have hk : k.val + 2 = i.val := Nat.sub_add_cancel hlow
  have hothers : ∀ j ∈ Finset.univ.erase k, summedByte q j = summedByte p j := by
    intro j hj
    have hne : (⟨j.val + 2, by omega⟩ : Fin 24) ≠ i := by
      intro heq
      apply Finset.ne_of_mem_erase hj
      apply Fin.ext
      have hval : j.val + 2 = i.val := congrArg Fin.val heq
      omega
    exact congrArg UInt8.toNat (h.2 _ hne)
  have hbyte : summedByte q k ≠ summedByte p k := by
    have hindex : ∀ b : Packet, summedByte b k = (b.get i).toNat := by
      intro b
      simp only [summedByte, hk]
    rw [hindex, hindex]
    exact fun heq => h.1 (UInt8.toNat_inj.1 heq)
  have hq : summedByte q k < 256 := UInt8.toNat_lt _
  have hp : summedByte p k < 256 := UInt8.toNat_lt _
  have hrest : ∑ j ∈ Finset.univ.erase k, summedByte q j =
      ∑ j ∈ Finset.univ.erase k, summedByte p j := Finset.sum_congr rfl hothers
  have hsplit : ∀ b : Packet, ∑ j : Fin 21, summedByte b j =
      summedByte b k + ∑ j ∈ Finset.univ.erase k, summedByte b j := by
    intro b
    exact (Finset.add_sum_erase _ _ (Finset.mem_univ k)).symm
  -- The sums differ by less than 256 and by more than nothing.
  rw [checksum_eq_sum, checksum_eq_sum, hsplit q, hsplit p, hrest]
  omega

theorem sumByte_eq (h : DiffersOnlyAt p q i) (hhigh : i.val ≤ 22) : sumByte q = sumByte p := by
  apply h.2
  intro heq
  have hval : UART_IND_SM.val = i.val := congrArg Fin.val heq
  have hsum : UART_IND_SM.val = 23 := rfl
  omega

/-- The carried checksum is not among the bytes that the checksum covers. -/
theorem checksum_eq (h : DiffersOnlyAt p q UART_IND_SM) : checksum q = checksum p := by
  have hsame : ∀ j ∈ Finset.univ, summedByte q j = summedByte p j := by
    intro j _
    have hne : (⟨j.val + 2, by omega⟩ : Fin 24) ≠ UART_IND_SM := by
      intro heq
      have hval : j.val + 2 = 23 := congrArg Fin.val heq
      omega
    exact congrArg UInt8.toNat (h.2 _ hne)
  rw [checksum_eq_sum, checksum_eq_sum, Finset.sum_congr rfl hsame]

theorem checksum_ne_sumByte (hp : checksum p = (sumByte p).toNat) (h : DiffersOnlyAt p q i)
    (hlow : 2 ≤ i.val) : checksum q ≠ (sumByte q).toNat := by
  by_cases hhigh : i.val ≤ 22
  · rw [sumByte_eq h hhigh, ← hp]
    exact checksum_ne h hlow hhigh
  · have hi : i = UART_IND_SM := by
      apply Fin.ext
      have hsum : UART_IND_SM.val = 23 := rfl
      omega
    subst hi
    rw [checksum_eq h, hp]
    exact fun heq => h.1 (UInt8.toNat_inj.1 heq.symm)

theorem wrong_byte_refused (T : Target) (st : State) (hp : checksum p = (sumByte p).toNat)
    (h : DiffersOnlyAt p q i) (hlow : 2 ≤ i.val) :
    dealUartInf T st q 24 = .ok { state := st, ret := -2, readings := .zero } := by
  have hlength : ¬ (24 : Int) ≠ 24 := fun hne => hne rfl
  rw [dealUartInf, if_neg hlength, if_pos (checksum_ne_sumByte hp h hlow)]

end OneByte

/-! ## No trace -/

section Trace

variable (T : Target) (st : State)

/-- A refused call returns the state that it was called in. -/
theorem dealUartInf_rejected {c : Call} (h : c.accepted = false) :
    ∃ o, dealUartInf T st c.inDataBuffer c.recvlen = .ok o ∧ (o.ret = -1 ∨ o.ret = -2) ∧
      o.state = st := by
  rcases (not_accepted_iff_ret T st c.inDataBuffer c.recvlen).1 h with ⟨o, ho, hret⟩
  have hstep := step_rejected T st c h
  rw [step_eq, ho] at hstep
  exact ⟨o, ho, hret, Except.ok.inj hstep⟩

theorem refused_keeps_state {b : Packet} {recvlen : Int} {o : Outcome}
    (h : dealUartInf T st b recvlen = .ok o) (hret : o.ret = -1 ∨ o.ret = -2) : o.state = st := by
  have hrej : (⟨b, recvlen⟩ : Call).accepted = false :=
    (not_accepted_iff_ret T st b recvlen).2 ⟨o, h, hret⟩
  rcases dealUartInf_rejected T st hrej with ⟨o', ho', _, hstate⟩
  cases Except.ok.inj (h.symm.trans ho')
  exact hstate

/-- What the calls of a run return, up to the first one that ends the process. -/
def outcomes : State → List Call → List (Except Fault Outcome)
  | _, [] => []
  | st, c :: calls =>
      match dealUartInf T st c.inDataBuffer c.recvlen with
      | .ok o => .ok o :: outcomes o.state calls
      | .error e => [.error e]

/-- The call did not return `-1` or `-2`. -/
def answered : Except Fault Outcome → Bool
  | .ok o => o.ret != -1 && o.ret != -2
  | .error _ => true

theorem answered_eq (c : Call) :
    answered (dealUartInf T st c.inDataBuffer c.recvlen) = c.accepted := by
  have hret := not_accepted_iff_ret T st c.inDataBuffer c.recvlen
  cases hacc : c.accepted with
  | false =>
      rcases hret.1 hacc with ⟨o, ho, hneg⟩
      rcases hneg with hneg | hneg <;> simp [answered, ho, hneg]
  | true =>
      cases hcall : dealUartInf T st c.inDataBuffer c.recvlen with
      | error e => rfl
      | ok o =>
          have hpos : ¬ (o.ret = -1 ∨ o.ret = -2) := by
            intro hneg
            have hrej : c.accepted = false := hret.2 ⟨o, hcall, hneg⟩
            rw [hacc] at hrej
            cases hrej
          simpa [answered, not_or] using hpos

/-- Without the refused calls, the others return the same. -/
theorem outcomes_accepted (calls : List Call) :
    (outcomes T st calls).filter answered = outcomes T st (calls.filter Call.accepted) := by
  induction calls generalizing st with
  | nil => rfl
  | cons c calls ih =>
      have hanswered := answered_eq T st c
      cases hacc : c.accepted with
      | false =>
          rcases dealUartInf_rejected T st hacc with ⟨o, ho, _, hstate⟩
          rw [hacc, ho] at hanswered
          rw [List.filter_cons_of_neg (by simp [hacc]), ← ih st]
          simp only [outcomes, ho, hstate]
          exact List.filter_cons_of_neg (by simp [hanswered])
      | true =>
          rw [hacc] at hanswered
          rw [List.filter_cons_of_pos hacc, outcomes, outcomes]
          cases hcall : dealUartInf T st c.inDataBuffer c.recvlen with
          | error e => rfl
          | ok o =>
              rw [hcall] at hanswered
              have hfilter := List.filter_cons_of_pos (l := outcomes T o.state calls) hanswered
              exact hfilter.trans (congrArg _ (ih o.state))

theorem runFrom_accepted (calls : List Call) :
    (decoder T).runFrom st calls = (decoder T).runFrom st (calls.filter Call.accepted) := by
  induction calls generalizing st with
  | nil => rfl
  | cons c calls ih =>
      cases hacc : c.accepted with
      | false =>
          rw [List.filter_cons_of_neg (by simp [hacc]), ← ih,
            (decoder T).runFrom_cons_ok (step_rejected T st c hacc)]
      | true =>
          rw [List.filter_cons_of_pos hacc]
          cases hstep : (decoder T).step st c with
          | error e =>
              rw [(decoder T).runFrom_cons_error hstep, (decoder T).runFrom_cons_error hstep]
          | ok t => rw [(decoder T).runFrom_cons_ok hstep, (decoder T).runFrom_cons_ok hstep, ih]

end Trace

/-- In any state: one wrong byte is refused with `-2`, the refused calls are those that return `-1`
or `-2` and they keep the state, and runs that differ in refused calls only end in the same state
with the same answers. -/
theorem corruption_leaves_no_trace (T : Target) (st : State) :
    (∀ p q i, checksum p = (sumByte p).toNat → 2 ≤ i.val → DiffersOnlyAt p q i →
        ∃ o, dealUartInf T st q 24 = .ok o ∧ o.ret = -2) ∧
      (∀ c : Call, c.accepted = false ↔
        ∃ o, dealUartInf T st c.inDataBuffer c.recvlen = .ok o ∧ (o.ret = -1 ∨ o.ret = -2)) ∧
      (∀ b recvlen o, dealUartInf T st b recvlen = .ok o → o.ret = -1 ∨ o.ret = -2 →
        o.state = st) ∧
      ∀ calls calls' : List Call, calls.filter Call.accepted = calls'.filter Call.accepted →
        (decoder T).runFrom st calls = (decoder T).runFrom st calls' ∧
          (outcomes T st calls).filter answered = (outcomes T st calls').filter answered := by
  refine ⟨?_, fun c => not_accepted_iff_ret T st c.inDataBuffer c.recvlen,
    fun b recvlen o => refused_keeps_state T st, ?_⟩
  · intro p q i hp hlow h
    exact ⟨_, wrong_byte_refused T st hp h hlow, rfl⟩
  · intro calls calls' hsame
    rw [runFrom_accepted, runFrom_accepted T st calls', outcomes_accepted, outcomes_accepted, hsame]
    exact ⟨rfl, rfl⟩

/-- A packet without power update, sent once more with a wrong first byte of the voltage. -/
theorem wrong_voltage_byte_skipped :
    (decoder lp64).run [⟨uncalibratedFrame, 24⟩, ⟨uncalibratedFrame.set 2 1, 24⟩] =
      (decoder lp64).run [⟨uncalibratedFrame, 24⟩] :=
  ((corruption_leaves_no_trace lp64 initial).2.2.2 _ _ (by decide)).1

end Hlw8032
end LinuxLearn
