import Mathlib.Algebra.Order.BigOperators.Group.List
import Mathlib.Algebra.Order.Group.Nat
import Mathlib.Data.List.MinMax
import Mathlib.Order.Bounds.Basic
import ZkClob.Foundations.Tally

/-!
# Clearing a call auction

Bids name the highest price that they pay, asks the lowest one that they take.  A
single price for everybody sells as much as both sides offer at it: the smaller of
demand and supply.  Fills at many prices need not be worse.  When they leave no bid
and ask open that would still trade with one another, and every filled bid pays what
every filled ask takes, they add up to the most that any single price sells.

Main results:

- Theorem {lit}`Cleared.min_le_volume`: no price sells more than what is filled.
- Theorem {lit}`Cleared.exists_price`: some price sells as much.
- Theorem {lit}`Cleared.isGreatest`: what is filled is the volume of the auction.
-/

namespace Foundations

namespace CallAuction

/-- A limit order with what is filled of it. -/
structure Offer (P : Type) where
  price : P
  size : Nat
  filled : Nat

variable {P : Type} [LinearOrder P]

/-- What bids want at a price. -/
def demand (bids : List (Offer P)) (p : P) : Nat :=
  tally (fun bid => p ≤ bid.price) Offer.size bids

/-- What asks offer at a price. -/
def supply (asks : List (Offer P)) (p : P) : Nat :=
  tally (fun ask => ask.price ≤ p) Offer.size asks

omit [LinearOrder P] in
/-- What is filled of some offers. -/
def volume (offers : List (Offer P)) : Nat :=
  (offers.map Offer.filled).sum

/-- Fills that could not go on: both sides are filled by the same amount, two offers that are
open do not cross, and two offers that are filled do. -/
structure Cleared (bids asks : List (Offer P)) : Prop where
  bidsLe : ∀ bid ∈ bids, bid.filled ≤ bid.size
  asksLe : ∀ ask ∈ asks, ask.filled ≤ ask.size
  balanced : volume bids = volume asks
  uncrossed : ∀ bid ∈ bids, ∀ ask ∈ asks, bid.filled < bid.size → ask.filled < ask.size →
    bid.price < ask.price
  crossed : ∀ bid ∈ bids, ∀ ask ∈ asks, 0 < bid.filled → 0 < ask.filled → ask.price ≤ bid.price

section

variable {offers : List (Offer P)} {p : Offer P → Bool}

omit [LinearOrder P] in
/-- Offers that are filled in full count for at most what is filled altogether. -/
theorem tally_size_le_volume (h : ∀ offer ∈ offers, p offer = true → offer.filled = offer.size) :
    tally p Offer.size offers ≤ volume offers := by
  apply List.sum_le_sum
  intro offer hoffer
  by_cases hp : p offer = true
  · rw [if_pos hp, h offer hoffer hp]
  · rw [if_neg hp]
    exact Nat.zero_le _

omit [LinearOrder P] in
/-- What is filled is at most the size of the offers that it went to. -/
theorem volume_le_tally_size (hle : ∀ offer ∈ offers, offer.filled ≤ offer.size)
    (h : ∀ offer ∈ offers, 0 < offer.filled → p offer = true) :
    volume offers ≤ tally p Offer.size offers := by
  apply List.sum_le_sum
  intro offer hoffer
  by_cases hp : p offer = true
  · rw [if_pos hp]
    exact hle offer hoffer
  · rw [if_neg hp]
    by_contra hpos
    exact hp (h offer hoffer (Nat.pos_of_ne_zero fun hzero => hpos (by omega)))

omit [LinearOrder P] in
/-- Something is filled only when some offer is. -/
theorem exists_filled (h : 0 < volume offers) : ∃ offer ∈ offers, 0 < offer.filled := by
  by_contra hnone
  have hzero : volume offers = 0 := by
    apply List.sum_eq_zero
    intro n hn
    obtain ⟨offer, hoffer, rfl⟩ := List.mem_map.mp hn
    by_contra hpos
    exact hnone ⟨offer, hoffer, Nat.pos_of_ne_zero hpos⟩
  omega

end

namespace Cleared

variable {bids asks : List (Offer P)}

/-- No price sells more than what is filled: where a bid at the price is open, no ask at it is. -/
theorem min_le_volume (h : Cleared bids asks) (p : P) :
    min (demand bids p) (supply asks p) ≤ volume bids := by
  by_cases hopen : ∃ bid ∈ bids, p ≤ bid.price ∧ bid.filled < bid.size
  · obtain ⟨bid, hbid, hprice, hlt⟩ := hopen
    have hfull : ∀ ask ∈ asks, decide (ask.price ≤ p) = true → ask.filled = ask.size := by
      intro ask hask hle
      by_contra hne
      have hask' := lt_of_le_of_ne (h.asksLe ask hask) hne
      have hcross := h.uncrossed bid hbid ask hask hlt hask'
      exact (hcross.trans_le (of_decide_eq_true hle)).not_ge hprice
    rw [h.balanced]
    exact (min_le_right _ _).trans (tally_size_le_volume hfull)
  · have hfull : ∀ bid ∈ bids, decide (p ≤ bid.price) = true → bid.filled = bid.size := by
      intro bid hbid hle
      by_contra hne
      exact hopen ⟨bid, hbid, of_decide_eq_true hle, lt_of_le_of_ne (h.bidsLe bid hbid) hne⟩
    exact (min_le_left _ _).trans (tally_size_le_volume hfull)

/-- The lowest price of a filled bid sells what is filled. -/
theorem exists_price (h : Cleared bids asks) (hpos : 0 < volume bids) :
    ∃ p, min (demand bids p) (supply asks p) = volume bids := by
  obtain ⟨bid, hbid, hfilled⟩ := exists_filled hpos
  have hmem : bid ∈ bids.filter fun bid => 0 < bid.filled :=
    List.mem_filter.mpr ⟨hbid, decide_eq_true hfilled⟩
  cases hmin : (bids.filter fun bid => 0 < bid.filled).argmin Offer.price with
  | none =>
      rw [List.argmin_eq_none] at hmin
      rw [hmin] at hmem
      cases hmem
  | some lowest =>
      obtain ⟨hlowest, hpositive⟩ := List.mem_filter.mp (List.argmin_mem hmin)
      refine ⟨lowest.price, le_antisymm (h.min_le_volume _) (le_min ?_ ?_)⟩
      · apply volume_le_tally_size h.bidsLe
        intro bid hbid hfilled
        have hother : bid ∈ bids.filter fun bid => 0 < bid.filled :=
          List.mem_filter.mpr ⟨hbid, decide_eq_true hfilled⟩
        exact decide_eq_true (List.le_of_mem_argmin hother hmin)
      · rw [h.balanced]
        apply volume_le_tally_size h.asksLe
        intro ask hask hfilled
        exact decide_eq_true
          (h.crossed lowest hlowest ask hask (of_decide_eq_true hpositive) hfilled)

/-- What is filled is the volume of the auction: the most that a single price sells. -/
theorem isGreatest [Nonempty P] (h : Cleared bids asks) :
    IsGreatest (Set.range fun p => min (demand bids p) (supply asks p)) (volume bids) := by
  constructor
  · by_cases hpos : 0 < volume bids
    · exact h.exists_price hpos
    · obtain ⟨p⟩ := ‹Nonempty P›
      have hle := h.min_le_volume p
      have hzero : volume bids = 0 := Nat.eq_zero_of_not_pos hpos
      exact ⟨p, (Nat.le_zero.mp (hzero ▸ hle)).trans hzero.symm⟩
  · rintro v ⟨p, rfl⟩
    exact h.min_le_volume p

end Cleared

end CallAuction

end Foundations
