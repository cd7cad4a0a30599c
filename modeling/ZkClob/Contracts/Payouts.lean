import ZkClob.Contracts.Effects

/-!
# Payouts over runs

A batch lists who is to be paid.  Over any run, whatever recipients do and whichever
transfers fail, what was delivered to a recipient and what is credited to it add up to
what the settled batches list for it.

Main results:

- Theorem {lit}`Contract.payouts_exact`: nothing is lost, paid twice or sent elsewhere.
-/

namespace ZkClob

open Foundations

namespace Contract

variable {B256 : Type} [Bytes32 B256] [Sha256 B256] [MathLibrary] [ISP1Verifier B256]
  {self : Immutables B256} {world world' : World B256}

/-- What settled batches owe to a recipient. -/
def owedBy (calls : List (SettleCall B256)) (recipient asset : Address) : Nat :=
  (calls.map fun call => call.owed recipient asset).sum

/-- What a recipient got or has been credited. -/
def paidOrPending (world : World B256) (recipient asset : Address) : Nat :=
  transferred world .payout recipient asset +
    (world.storage.pendingWithdrawals recipient asset).toNat

/-- A transaction pays or credits exactly what the batch that it settles owes. -/
theorem Effect.paidOrPending_eq {calls : List (SettleCall B256)} {escaped : List Address}
    (h : Effect self world world' calls escaped) (recipient asset : Address) :
    paidOrPending world' recipient asset =
      paidOrPending world recipient asset + owedBy calls recipient asset := by
  cases h with
  | undisturbed h => simp [paidOrPending, transferred, owedBy, h.transfers, h.pending]
  | deposit h => simp [paidOrPending, transferred, owedBy, h.transfers, h.pending]
  | claim h => exact h.payouts recipient asset
  | escape h => exact h.paid.payouts recipient asset
  | @settle call output cursor h =>
      have howed : owedBy [call] recipient asset = call.owed recipient asset := by simp [owedBy]
      rw [howed]
      exact h.paid.payouts recipient asset

/-- A settled batch lists what its public values commit to. -/
def Committed (call : SettleCall B256) : Prop :=
  ∃ output, abiDecode call.publicValues = .ok output ∧
    hashWithdrawals B256 call.withdrawals = output.withdrawalsHash ∧
    hashForcedWithdrawals B256 call.forcedWithdrawals = output.forcedWithdrawalsHash

theorem Effect.committed {calls : List (SettleCall B256)} {escaped : List Address}
    (h : Effect self world world' calls escaped) : ∀ call ∈ calls, Committed call := by
  cases h with
  | @settle call output cursor h =>
      intro call hcall
      rw [List.mem_singleton.mp hcall]
      exact ⟨output, h.decoded, h.withdrawals, h.forcedWithdrawals⟩
  | undisturbed h => simp
  | deposit h => simp
  | claim h => simp
  | escape h => simp

/-- In every run, what was delivered to a recipient and what is credited to it is the total of
the withdrawals to it and the forced withdrawals of its account that the settled batches
list. -/
theorem payouts_exact [DecidableEq B256] (self : Immutables B256) (initialStateRoot : B256)
    (initialBatchId : U64) (holdings : Address → U256) (transactions : List (Context × Call B256)) :
    let start := genesis initialStateRoot initialBatchId holdings
    let world := run self start transactions
    (∀ recipient asset, transferred world .payout recipient asset +
        (world.storage.pendingWithdrawals recipient asset).toNat =
      ((settlements self start transactions).map fun call =>
        tally (fun w => w.recipient = recipient ∧ w.asset = asset) (fun w => w.amount.toNat)
            call.withdrawals +
          tally (fun w => w.account = recipient ∧ w.asset = asset) (fun w => w.amount.toNat)
            call.forcedWithdrawals).sum) ∧
      ∀ call ∈ settlements self start transactions, Committed call := by
  intro start world
  apply history_invariant (step self) (settledCalls self) (P := fun world calls =>
    (∀ recipient asset, paidOrPending world recipient asset = owedBy calls recipient asset) ∧
      ∀ call ∈ calls, Committed call)
  · rintro world calls transaction ⟨hpaid, hcommitted⟩
    have heffect := step_effect self world transaction
    constructor
    · intro recipient asset
      rw [heffect.paidOrPending_eq, hpaid, owedBy, owedBy, owedBy, List.map_append, List.sum_append]
    · intro call hcall
      rcases List.mem_append.mp hcall with hcall | hcall
      · exact hcommitted call hcall
      · exact heffect.committed call hcall
  · exact ⟨fun _ _ => rfl, by simp⟩

end Contract

end ZkClob
