import CexAggregator.BandAnswer
import CexAggregator.Startup
import CexAggregator.StreamRequests

/-!
# The publisher clients

How a client's flags become a request, and how it follows the stream. A list of whole
thresholds arrives at the server as it was typed, and each is answered by one band.
-/

namespace CexAggregator

structure ClientOptions where
  server : String := "localhost:50051"
  instrument : String := ""
  minIntervalMicros : UInt32 := 0
  json : Bool := false
  outFile : String := ""
  maxUpdates : Int := 0

def Flags.getBool (flags : Flags) (key : String) (fallback : Bool) : Except String Bool :=
  match flags.find key with
  | none => .ok fallback
  | some text =>
    if text = "true" ∨ text = "1" ∨ text = "yes" then .ok true
    else if text = "false" ∨ text = "0" ∨ text = "no" then .ok false
    else .error ("--" ++ key ++ " expects a boolean, got '" ++ text ++ "'")

def requireKnownClientFlags (flags : Flags) (extra : List String) : Except String Unit :=
  flags.requireKnown (["server", "instrument", "min-interval-us", "json", "max-updates", "quiet",
    "out-file"] ++ extra)

def parseClientOptions (flags : Flags) : Except String ClientOptions := do
  let defaults : ClientOptions := {}
  let minIntervalMicros ← flags.getIntWithin "min-interval-us" 0 0 60000000
  let json ← flags.getBool "json" false
  let maxUpdates ← flags.getIntWithin "max-updates" 0 0 1000000
  pure
    { server := flags.get "server" defaults.server
      instrument := flags.get "instrument" ""
      minIntervalMicros := .ofInt minIntervalMicros
      json := json
      outFile := flags.get "out-file" ""
      maxUpdates := maxUpdates }

structure CsvScan where
  out : List (List Char) := []
  item : List Char := []

def CsvScan.next (s : CsvScan) (c : Char) : CsvScan :=
  if c ≠ ',' then { s with item := s.item ++ [c] }
  else if s.item ≠ [] then { out := s.out ++ [s.item], item := [] }
  else s

def splitCsv (text : List Char) : List (List Char) := ((text ++ [',']).foldl CsvScan.next {}).out

def isSpace (c : Char) : Bool := c = ' ' ∨ (9 ≤ c.toNat ∧ c.toNat ≤ 13)

/-- `std::atoll`: what follows the digits is ignored. A value that does not fit is undefined. -/
def atoll (text : List Char) : Option Int :=
  let text := text.dropWhile isSpace
  let negative := text.head? = some '-'
  let unsigned := if negative ∨ text.head? = some '+' then text.tail else text
  let magnitude : Int := Nat.ofDigitChars 10 (unsigned.takeWhile Char.isDigit) 0
  let value := if negative then -magnitude else magnitude
  if FitsInt64 value then some value else none

/-- Scaled in 64 bits; nothing where the product overflows. -/
def scaledBand (text : List Char) : Option Int :=
  (atoll text).bind fun band => if FitsInt64 (band * kScale) then some (band * kScale) else none

inductive BandClient where
  | volumeBands
  | priceBands

namespace BandClient

def flag : BandClient → String
  | volumeBands => "bands-usd"
  | priceBands => "bands-bps"

def streamCall : BandClient → List Int → StreamCall
  | volumeBands => .volumeBands
  | priceBands => .priceBands

def defaults : BandClient → List Int
  | volumeBands => defaultNotionalBands
  | priceBands => defaultBpsOffsets

def bands (client : BandClient) (flags : Flags) : Option (List Int) :=
  (splitCsv (flags.get client.flag "").toList).mapM scaledBand

end BandClient

structure ClientCall where
  options : ClientOptions
  request : StreamRequest

/-- Nothing where the arithmetic is undefined. -/
def BandClient.call (client : BandClient) (flags : Flags) : Except String (Option ClientCall) := do
  requireKnownClientFlags flags [client.flag]
  let options ← parseClientOptions flags
  pure ((client.bands flags).map fun bands =>
    ⟨options, ⟨options.instrument, options.minIntervalMicros, client.streamCall bands⟩⟩)

@[simp] theorem modifyHead_self (pieces : List (List Char)) :
    pieces.modifyHead (fun piece => piece) = pieces := by
  cases pieces with
  | nil => rfl
  | cons piece pieces => rfl

theorem csvScan_out (text : List Char) (s : CsvScan) :
    ((text ++ [',']).foldl CsvScan.next s).out =
      s.out ++ ((text.splitOn ',').modifyHead (s.item ++ ·)).filter (· ≠ []) := by
  induction text generalizing s with
  | nil =>
    by_cases hitem : s.item = []
    · simp [CsvScan.next, hitem]
    · simp [CsvScan.next, hitem]
  | cons c text ih =>
    rw [List.cons_append, List.foldl_cons, ih, List.splitOn_cons_eq_if_modifyHead]
    by_cases hcomma : c = ','
    · subst hcomma
      by_cases hitem : s.item = []
      · simp [CsvScan.next, hitem]
      · simp [CsvScan.next, hitem]
    · simp [CsvScan.next, hcomma, List.modifyHead_modifyHead, Function.comp_def]

/-- The client's reader of lists and the server's agree. -/
theorem splitCsv_eq (text : List Char) : splitCsv text = (text.splitOn ',').filter (· ≠ []) := by
  rw [splitCsv, csvScan_out]
  simp

theorem requestedVenues_eq (flags : Flags) : requestedVenues flags =
    (splitCsv (flags.get "venues" "binance,okx,bybit").toList).map String.ofList := by
  rw [splitCsv_eq, requestedVenues]

def scaled (values : List ℕ) : List Int := values.map fun value : ℕ => (value : Int) * kScale

namespace BandClient

def field : BandClient → String
  | volumeBands => "notional_bands_e8"
  | priceBands => "offsets_bps_e8"

def update : BandClient → List Int → ConsolidatedBook → StreamUpdate
  | volumeBands, bands => volumeBandsUpdate ⟨bands, []⟩
  | priceBands, bands => priceBandsUpdate ⟨[], bands⟩

end BandClient

end CexAggregator
