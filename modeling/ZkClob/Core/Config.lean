import ZkClob.Core.Account

/-!
# Exchange configuration

The supported assets and markets, in identifier order, and the fee rule.  Lookups
are binary searches.
-/

namespace ZkClob

open Foundations

/-- A supported asset and the number of smallest units in one whole asset. -/
structure AssetConfig where
  id : AssetId
  scale : U128
deriving DecidableEq

/-- A supported market. -/
structure MarketConfig where
  id : MarketId
  baseAsset : AssetId
  quoteAsset : AssetId
deriving DecidableEq

/-- The fee charged to buyers in the quote asset, and its recipient. -/
structure FeeConfig where
  recipient : AccountId
  buyerFeeBps : U16
deriving DecidableEq

/-- The configuration of one exchange. -/
structure ExchangeConfig where
  assets : List AssetConfig
  markets : List MarketConfig
  fees : FeeConfig
deriving DecidableEq

namespace ExchangeConfig

/-- {lit}`ExchangeConfig::market`. -/
def market (self : ExchangeConfig) (id : MarketId) : Option MarketConfig :=
  match binarySearchByKey MarketConfig.id id self.markets with
  | .ok index => self.markets[index]?
  | .error _ => none

/-- {lit}`ExchangeConfig::asset`. -/
def asset (self : ExchangeConfig) (id : AssetId) : Option AssetConfig :=
  match binarySearchByKey AssetConfig.id id self.assets with
  | .ok index => self.assets[index]?
  | .error _ => none

/-- A market found by its identifier is configured under that identifier. -/
theorem market_eq_some {self : ExchangeConfig} {id : MarketId} {market : MarketConfig}
    (h : self.market id = some market) : market ∈ self.markets ∧ market.id = id := by
  unfold ExchangeConfig.market at h
  split at h
  · rename_i index hindex
    rcases binarySearchBy_ok hindex with ⟨m, hm, hkey⟩
    rw [h, Option.some.injEq] at hm
    subst hm
    exact ⟨List.mem_of_getElem? h, compare_eq_iff_eq.mp hkey⟩
  · cases h

/-- An asset found by its identifier is configured under that identifier. -/
theorem asset_eq_some {self : ExchangeConfig} {id : AssetId} {asset : AssetConfig}
    (h : self.asset id = some asset) : asset ∈ self.assets ∧ asset.id = id := by
  unfold ExchangeConfig.asset at h
  split at h
  · rename_i index hindex
    rcases binarySearchBy_ok hindex with ⟨a, ha, hkey⟩
    rw [h, Option.some.injEq] at ha
    subst ha
    exact ⟨List.mem_of_getElem? h, compare_eq_iff_eq.mp hkey⟩
  · cases h

end ExchangeConfig

/-! ## Hashing -/

instance : Sha256Hash AssetConfig where
  updateHash self := updateHash self.id ++ beBytes self.scale

instance : Sha256Hash MarketConfig where
  updateHash self :=
    updateHash self.id ++ updateHash self.baseAsset ++ updateHash self.quoteAsset

instance : Sha256Hash FeeConfig where
  updateHash self := updateHash self.recipient ++ beBytes self.buyerFeeBps

instance : DomainSha256Hash ExchangeConfig where
  updateHash self :=
    toBeBytes 8 self.assets.length ++ self.assets.flatMap updateHash ++
      toBeBytes 8 self.markets.length ++ self.markets.flatMap updateHash ++
      updateHash self.fees
  domain := ascii "ZKCLOB_CONFIG_V1"

end ZkClob
