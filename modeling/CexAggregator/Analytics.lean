import CexAggregator.Consolidated

/-!
# Band analytics over a ladder

One outward walk closes two families of bands: volume bands when their notional target
is reached inside a level, price bands when a level falls outside their bound. The two
while loops at a level stop at the first band that stays open, so they close a prefix
of the bands still pending.
-/

namespace CexAggregator

structure TouchInfo where
  hasBid : Bool := false
  hasAsk : Bool := false
  bestBid : Int := 0
  bestAsk : Int := 0
  mid : Int := 0
  spread : Int := 0
  spreadBps : Int := 0
  crossed : Bool := false
deriving DecidableEq, Repr

structure VolumeBandResult where
  target : Int := 0
  vwap : Int := 0
  worst : Int := 0
  filledQty : Int := 0
  filledNotional : Int := 0
  fullyFilled : Bool := false
  openEnded : Bool := false
  levelsConsumed : ℕ := 0
deriving DecidableEq, Repr

structure PriceBandResult where
  offsetBps : Int := 0
  bound : Int := 0
  vwap : Int := 0
  qty : Int := 0
  notional : Int := 0
  levels : ℕ := 0
  openEnded : Bool := false
  depthLimited : Bool := false
deriving DecidableEq, Repr

structure BandConfig where
  notionals : List Int
  offsetsBps : List Int
deriving DecidableEq, Repr

structure BandConfig.Ascending (config : BandConfig) : Prop where
  notionals : config.notionals.Pairwise (· < ·)
  offsetsBps : config.offsetsBps.Pairwise (· < ·)
  notionals_pos : ∀ target ∈ config.notionals, 0 < target
  offsetsBps_pos : ∀ offset ∈ config.offsetsBps, 0 < offset

instance (config : BandConfig) : Decidable config.Ascending :=
  decidable_of_iff (config.notionals.Pairwise (· < ·) ∧ config.offsetsBps.Pairwise (· < ·) ∧
      (∀ target ∈ config.notionals, 0 < target) ∧ ∀ offset ∈ config.offsetsBps, 0 < offset)
    ⟨fun h => ⟨h.1, h.2.1, h.2.2.1, h.2.2.2⟩, fun h => ⟨h.1, h.2, h.3, h.4⟩⟩

structure SideBands where
  volume : List VolumeBandResult := []
  price : List PriceBandResult := []
deriving DecidableEq, Repr

structure LadderView where
  levels : List MergedLevel
  descending : Bool := false

def viewBestPx (view : LadderView) : Int := (view.levels.head?.map MergedLevel.px).getD 0
def viewBestQty (view : LadderView) : Int := (view.levels.head?.map MergedLevel.qty).getD 0

def computeTouch (bids asks : LadderView) : TouchInfo :=
  let touch : TouchInfo :=
    { bestBid := viewBestPx bids
      bestAsk := viewBestPx asks
      hasBid := viewBestPx bids ≠ 0
      hasAsk := viewBestPx asks ≠ 0 }
  if ¬ touch.hasBid ∨ ¬ touch.hasAsk then touch
  else
    let mid := narrowSaturating ((touch.bestBid + touch.bestAsk).tdiv 2)
    let spread := touch.bestAsk - touch.bestBid
    { touch with
      mid := mid
      spread := spread
      spreadBps := bpsE8 spread mid
      crossed := touch.bestAsk ≤ touch.bestBid }

structure Cumulative where
  qty : Int := 0
  notional : Int := 0
  levels : ℕ := 0
  worstPx : Int
deriving DecidableEq, Repr

def Cumulative.pass (c : Cumulative) (level : MergedLevel) : Cumulative :=
  { qty := c.qty + level.qty
    notional := c.notional + notionalWide level.px level.qty
    levels := c.levels + 1
    worstPx := level.px }

def makePriceBand (offsetBps bound cumQty cumNotional : Int) (levels : ℕ)
    (openEnded depthLimited : Bool) : PriceBandResult :=
  { offsetBps := offsetBps
    bound := bound
    qty := narrowSaturating cumQty
    notional := narrowSaturating cumNotional
    vwap := vwap cumNotional cumQty
    levels := levels
    openEnded := openEnded
    depthLimited := depthLimited }

def emitEmptyBands (config : BandConfig) : SideBands :=
  { volume := config.notionals.map (fun target => { target := target }) ++ [{ openEnded := true }]
    price := config.offsetsBps.map (fun offset => makePriceBand offset 0 0 0 0 false true) ++
      [makePriceBand 0 0 0 0 0 true false] }

def closeVolumeBand (target px partialQty : Int) (c : Cumulative) : VolumeBandResult :=
  let partialNotional := if 0 < partialQty then notionalWide px partialQty else 0
  let filledQty := c.qty + partialQty
  let filledNotional := c.notional + partialNotional
  { target := target
    filledNotional := narrowSaturating filledNotional
    filledQty := narrowSaturating filledQty
    vwap := vwap filledNotional filledQty
    worst := if 0 < partialQty then px else c.worstPx
    fullyFilled := true
    levelsConsumed := c.levels + if 0 < partialQty then 1 else 0 }

/-- A volume target the ladder ended in front of. -/
def thinVolumeBand (target : Int) (c : Cumulative) (openEnded : Bool) : VolumeBandResult :=
  { target := target
    filledQty := narrowSaturating c.qty
    filledNotional := narrowSaturating c.notional
    vwap := vwap c.notional c.qty
    worst := c.worstPx
    fullyFilled := false
    openEnded := openEnded
    levelsConsumed := c.levels }

structure BandWalk where
  cumulative : Cumulative
  notionals : List Int
  offsetsBps : List Int
  out : SideBands := {}

def offsetBound (descending : Bool) (reference offset : Int) : Int :=
  offsetByBpsOutward reference offset descending

def outside (descending : Bool) (reference px offset : Int) : Bool :=
  ¬ PriceInside descending (offsetBound descending reference offset) px

def partialAt (c : Cumulative) (level : MergedLevel) (target : Int) : Int :=
  if c.notional + notionalWide level.px level.qty ≤ target then level.qty
  else qtyForNotional (target - c.notional) level.px

def reached (c : Cumulative) (level : MergedLevel) (target : Int) : Bool :=
  target ≤ c.notional + notionalWide level.px level.qty

def walkLevel (descending : Bool) (reference : Int) (w : BandWalk) (level : MergedLevel) :
    BandWalk :=
  let c := w.cumulative
  let price := (w.offsetsBps.takeWhile (outside descending reference level.px)).map fun offset =>
    makePriceBand offset (offsetBound descending reference offset) c.qty c.notional c.levels
      false false
  let volume := (w.notionals.takeWhile (reached c level)).map fun target =>
    closeVolumeBand target level.px (partialAt c level target) c
  { cumulative := c.pass level
    notionals := w.notionals.dropWhile (reached c level)
    offsetsBps := w.offsetsBps.dropWhile (outside descending reference level.px)
    out := { volume := w.out.volume ++ volume, price := w.out.price ++ price } }

def finishBands (descending : Bool) (reference : Int) (w : BandWalk) : SideBands :=
  let c := w.cumulative
  { price := w.out.price ++ w.offsetsBps.map (fun offset =>
        makePriceBand offset (offsetBound descending reference offset) c.qty c.notional c.levels
          false true) ++
      [makePriceBand 0 c.worstPx c.qty c.notional c.levels true false]
    volume := w.out.volume ++ w.notionals.map (fun target => thinVolumeBand target c false) ++
      [thinVolumeBand 0 c true] }

def computeSideBands (side : LadderView) (config : BandConfig) : SideBands :=
  let reference := viewBestPx side
  if reference = 0 then emitEmptyBands config
  else finishBands side.descending reference
    (side.levels.foldl (walkLevel side.descending reference)
      { cumulative := { worstPx := reference }
        notionals := config.notionals
        offsetsBps := config.offsetsBps })

end CexAggregator
