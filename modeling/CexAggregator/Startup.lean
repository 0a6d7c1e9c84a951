import CexAggregator.PublicationLedger

/-!
# From the command line to the publications

The flags, the venues that they select, and the configuration the engine is started with. What
is refused is refused with a message; what is started has at most one adapter for each known
venue, and every publication names each of them once.
-/

namespace CexAggregator

theorem bind_eq_ok {ε α β : Type} {x : Except ε α} {f : α → Except ε β} {b : β} :
    (x >>= f) = .ok b ↔ ∃ a, x = .ok a ∧ f a = .ok b := by
  cases x with
  | error e => exact ⟨fun h => (by cases h), fun ⟨_, h, _⟩ => (by cases h)⟩
  | ok a => exact ⟨fun h => ⟨a, rfl, h⟩, fun ⟨_, h, hf⟩ => (by cases h; exact hf)⟩

/-- The values that were given, in the order of their keys. -/
structure Flags where
  values : List (String × String) := []

namespace Flags

def assign (key value : String) : List (String × String) → List (String × String)
  | [] => [(key, value)]
  | entry :: rest =>
    if key < entry.1 then (key, value) :: entry :: rest
    else if key = entry.1 then (key, value) :: rest
    else entry :: assign key value rest

def add (flags : Flags) (argument : String) : Except String Flags :=
  match argument.toList with
  | '-' :: '-' :: text =>
    let key := String.ofList (text.takeWhile (· ≠ '='))
    match text.dropWhile (· ≠ '=') with
    | [] => .ok ⟨assign key "true" flags.values⟩
    | _ :: value => .ok ⟨assign key (String.ofList value) flags.values⟩
  | _ =>
    .error ("unexpected argument '" ++ argument ++
      "'; flags take the form --key=value, not --key value")

def parse (arguments : List String) : Except String Flags := arguments.foldlM add {}

def requireKnown (flags : Flags) (known : List String) : Except String Unit :=
  match flags.values.find? fun entry => entry.1 ∉ known with
  | some entry =>
    .error ("unknown flag --" ++ entry.1 ++ "\nvalid flags are:" ++
      String.join (known.map ("\n  --" ++ ·)))
  | none => .ok ()

def find (flags : Flags) (key : String) : Option String := flags.values.lookup key

def has (flags : Flags) (key : String) : Bool := (flags.find key).isSome

def get (flags : Flags) (key fallback : String) : String := (flags.find key).getD fallback

/-- `std::from_chars` at an `int`, when all of the text is taken. -/
def fromChars (text : List Char) : Option Int :=
  let digits := if text.head? = some '-' then text.tail else text
  if digits = [] ∨ ¬ digits.all Char.isDigit then none
  else
    let magnitude : Int := Nat.ofDigitChars 10 digits 0
    let value := if text.head? = some '-' then -magnitude else magnitude
    if -2147483648 ≤ value ∧ value ≤ 2147483647 then some value else none

def getInt (flags : Flags) (key : String) (fallback : Int) : Except String Int :=
  match flags.find key with
  | none => .ok fallback
  | some text =>
    match fromChars text.toList with
    | some parsed => .ok parsed
    | none => .error ("--" ++ key ++ " expects an integer, got '" ++ text ++ "'")

def getIntWithin (flags : Flags) (key : String) (fallback minimum maximum : Int) :
    Except String Int := do
  let value ← flags.getInt key fallback
  if value < minimum ∨ maximum < value then
    .error ("--" ++ key ++ " expects a value between " ++ toString minimum ++ " and " ++
      toString maximum ++ ", got " ++ toString value)
  else pure value

end Flags

def kKnownVenues : List String := ["binance", "okx", "bybit"]

def requestedVenues (flags : Flags) : List String :=
  (((flags.get "venues" "binance,okx,bybit").toList.splitOn ',').filter (· ≠ [])).map String.ofList

def addVenue (adapters : List Adapter) (adapter : Adapter) : Except String (List Adapter) :=
  if kMaxVenues ≤ adapters.length then
    .error ("configured " ++ toString (adapters.length + 1) ++ " venues but kMaxVenues is " ++
      toString kMaxVenues ++ "; raise it in consolidated.h")
  else .ok (adapters ++ [adapter])

section Venues
variable (flags : Flags) (instrument : String)

def binanceConfig : Except String Binance.Config := do
  let limit ← flags.getIntWithin "snapshot-limit" 5000 1 5000
  let config : Binance.Config := { symbol := instrument, snapshotLimit := limit }
  pure
    { config with
      streamUrl := flags.get "binance-ws" config.streamUrl
      restUrl := flags.get "binance-rest" config.restUrl }

def okxConfig : Okx.Config :=
  let symbol := flags.get "okx-symbol" (if instrument = "BTCUSDT" then "BTC-USDT" else instrument)
  let config : Okx.Config := { symbol := symbol }
  { config with streamUrl := flags.get "okx-ws" config.streamUrl }

def bybitConfig : Bybit.Config :=
  let config : Bybit.Config := { symbol := instrument }
  { config with streamUrl := flags.get "bybit-ws" config.streamUrl }

def addWanted (name : String) (adapter : Except String Adapter) (adapters : List Adapter) :
    Except String (List Adapter) :=
  if name ∈ requestedVenues flags then do
    let adapter ← adapter
    addVenue adapters adapter
  else pure adapters

def buildVenues : Except String (List Adapter) :=
  match (requestedVenues flags).find? (· ∉ kKnownVenues) with
  | some name => .error ("unknown venue '" ++ name ++ "'; known venues are binance, okx, bybit")
  | none => do
    let adapters ← addWanted flags "binance" ((binanceConfig flags instrument).map .binance) []
    let adapters ← addWanted flags "okx" (.ok (.okx (okxConfig flags instrument))) adapters
    let adapters ← addWanted flags "bybit" (.ok (.bybit (bybitConfig flags instrument))) adapters
    if adapters.isEmpty then .error "no venues selected" else pure adapters

end Venues

def kKnownFlags : List String :=
  ["help", "listen", "instrument", "venues", "binance-ws", "binance-rest", "okx-ws", "okx-symbol",
    "bybit-ws", "snapshot-limit", "staleness-ms", "max-publish-bps", "ca-file"]

structure Setup where
  listen : String
  caFile : String
  config : EngineConfig
  adapters : List Adapter

/-- The start of `main`; nothing is set up for a call for help. -/
def startup (arguments : List String) : Except String (Option Setup) := do
  let flags ← Flags.parse arguments
  if flags.has "help" then pure none
  else do
    flags.requireKnown kKnownFlags
    let instrument := flags.get "instrument" "BTCUSDT"
    let adapters ← buildVenues flags instrument
    let maxPublishBps ← flags.getIntWithin "max-publish-bps" 500 1 100000
    let stalenessMs ← flags.getIntWithin "staleness-ms" 5000 1 86400000
    pure (some
      { listen := flags.get "listen" "0.0.0.0:50051"
        caFile := flags.get "ca-file" ""
        config :=
          { instrument := instrument
            maxPublishBps := maxPublishBps
            stalenessTimeout := stalenessMs * 1000000 }
        adapters := adapters })

def Adapter.name : Adapter → String
  | .binance _ => "binance"
  | .okx _ => "okx"
  | .bybit _ => "bybit"

@[simp] theorem Adapter.protocol_name (parse : JsonParser) (adapter : Adapter) :
    (adapter.protocol parse).name = adapter.name := by
  cases adapter <;> rfl

def Adapter.DepthOffered : Adapter → Prop
  | .binance config => 1 ≤ config.snapshotLimit ∧ config.snapshotLimit ≤ 5000
  | _ => True

theorem getIntWithin_ok {flags : Flags} {key : String} {fallback minimum maximum value : Int}
    (h : flags.getIntWithin key fallback minimum maximum = .ok value) :
    minimum ≤ value ∧ value ≤ maximum := by
  obtain ⟨given, -, hgiven⟩ := bind_eq_ok.mp h
  split_ifs at hgiven with hrange
  cases hgiven
  omega

section Venues
variable {flags : Flags} {instrument name : String} {adapter : Except String Adapter}
  {adapters next : List Adapter}

theorem addWanted_ok (h : addWanted flags name adapter adapters = .ok next) :
    if name ∈ requestedVenues flags then ∃ a, adapter = .ok a ∧ next = adapters ++ [a]
    else next = adapters := by
  rw [addWanted] at h
  split_ifs at h ⊢
  · obtain ⟨a, ha, hadded⟩ := bind_eq_ok.mp h
    rw [addVenue] at hadded
    split_ifs at hadded
    cases hadded
    exact ⟨a, ha, rfl⟩
  · cases h
    rfl

variable (flags name adapter adapters) in
theorem exists_addWanted (room : ℕ) (hroom : room < kMaxVenues) (hlength : adapters.length ≤ room)
    (hadapter : name ∈ requestedVenues flags → ∃ a, adapter = .ok a) :
    ∃ next, addWanted flags name adapter adapters = .ok next ∧ next.length ≤ room + 1 := by
  rw [addWanted]
  split_ifs with hwanted
  · obtain ⟨a, rfl⟩ := hadapter hwanted
    have hadded : addVenue adapters a = .ok (adapters ++ [a]) :=
      if_neg (not_le.mpr (hlength.trans_lt hroom))
    exact ⟨adapters ++ [a], bind_eq_ok.mpr ⟨a, rfl, hadded⟩, by simpa using hlength⟩
  · exact ⟨adapters, rfl, hlength.trans (Nat.le_succ _)⟩

variable (flags) in
structure Built (known : List String) (adapters : List Adapter) : Prop where
  names : adapters.map Adapter.name = known.filter (· ∈ requestedVenues flags)
  depth : ∀ adapter ∈ adapters, adapter.DepthOffered

theorem Built.add {known : List String} (h : Built flags known adapters)
    (hadapter : ∀ a, adapter = .ok a → a.name = name ∧ a.DepthOffered)
    (hadded : addWanted flags name adapter adapters = .ok next) :
    Built flags (known ++ [name]) next := by
  have hnext := addWanted_ok hadded
  split_ifs at hnext with hwanted
  · obtain ⟨a, ha, rfl⟩ := hnext
    obtain ⟨hname, hdepth⟩ := hadapter a ha
    refine ⟨?_, List.forall_mem_append.mpr ⟨h.depth, List.forall_mem_singleton.mpr hdepth⟩⟩
    rw [List.map_append, List.filter_append, h.names]
    simp [hname, hwanted]
  · subst hnext
    refine ⟨?_, h.depth⟩
    rw [List.filter_append, h.names]
    simp [hwanted]

theorem binance_offered {a : Adapter}
    (h : (binanceConfig flags instrument).map Adapter.binance = .ok a) :
    a.name = "binance" ∧ a.DepthOffered := by
  cases hconfig : binanceConfig flags instrument with
  | error message => simp [hconfig, Except.map] at h
  | ok config =>
    rw [hconfig] at h
    cases h
    obtain ⟨limit, hlimit, hmade⟩ := bind_eq_ok.mp hconfig
    cases hmade
    exact ⟨rfl, getIntWithin_ok hlimit⟩

theorem built_of_added {first second : List Adapter}
    (hfirst : addWanted flags "binance" ((binanceConfig flags instrument).map .binance) [] =
      .ok first)
    (hsecond : addWanted flags "okx" (.ok (.okx (okxConfig flags instrument))) first = .ok second)
    (hthird : addWanted flags "bybit" (.ok (.bybit (bybitConfig flags instrument))) second =
      .ok adapters) : Built flags kKnownVenues adapters := by
  have hempty : Built flags [] [] := ⟨rfl, fun _ h => (List.not_mem_nil h).elim⟩
  have hbinance : Built flags ["binance"] first :=
    hempty.add (fun _ h => binance_offered h) hfirst
  have hokx : Built flags ["binance", "okx"] second := by
    refine hbinance.add (fun a ha => ?_) hsecond
    cases ha
    exact ⟨rfl, trivial⟩
  refine hokx.add (fun a ha => ?_) hthird
  cases ha
  exact ⟨rfl, trivial⟩

theorem find_unknown_eq_none : (requestedVenues flags).find? (· ∉ kKnownVenues) = none ↔
    ∀ name ∈ requestedVenues flags, name ∈ kKnownVenues := by
  simp [List.find?_eq_none]

theorem buildVenues_ok (h : buildVenues flags instrument = .ok adapters) :
    Built flags kKnownVenues adapters ∧ adapters ≠ [] ∧
      ∀ name ∈ requestedVenues flags, name ∈ kKnownVenues := by
  rw [buildVenues] at h
  split at h
  · cases h
  · rename_i hknown
    obtain ⟨first, hfirst, h⟩ := bind_eq_ok.mp h
    obtain ⟨second, hsecond, h⟩ := bind_eq_ok.mp h
    obtain ⟨third, hthird, h⟩ := bind_eq_ok.mp h
    split_ifs at h with hnone
    cases h
    exact ⟨built_of_added hfirst hsecond hthird, fun h => hnone (by rw [h]; rfl),
      find_unknown_eq_none.mp hknown⟩

theorem exists_buildVenues (hsome : requestedVenues flags ≠ [])
    (hknown : ∀ name ∈ requestedVenues flags, name ∈ kKnownVenues)
    (hbinance : "binance" ∈ requestedVenues flags →
      ∃ config, binanceConfig flags instrument = .ok config) :
    ∃ adapters, buildVenues flags instrument = .ok adapters := by
  obtain ⟨first, hfirst, hone⟩ := exists_addWanted flags "binance"
    ((binanceConfig flags instrument).map .binance) [] 0 (by decide) (Nat.le_refl 0) (by
      intro hwanted
      obtain ⟨config, hconfig⟩ := hbinance hwanted
      exact ⟨.binance config, by rw [hconfig]; rfl⟩)
  obtain ⟨second, hsecond, htwo⟩ := exists_addWanted flags "okx"
    (.ok (.okx (okxConfig flags instrument))) first 1 (by decide) hone fun _ => ⟨_, rfl⟩
  obtain ⟨third, hthird, -⟩ := exists_addWanted flags "bybit"
    (.ok (.bybit (bybitConfig flags instrument))) second 2 (by decide) htwo fun _ => ⟨_, rfl⟩
  have hbuilt := (built_of_added hfirst hsecond hthird).names
  have hnonempty : third ≠ [] := by
    rintro rfl
    obtain ⟨name, hname⟩ := List.exists_mem_of_ne_nil _ hsome
    have hnone := List.filter_eq_nil_iff.mp hbuilt.symm name (hknown name hname)
    simp [hname] at hnone
  refine ⟨third, ?_⟩
  rw [buildVenues, find_unknown_eq_none.mpr hknown]
  refine bind_eq_ok.mpr ⟨first, hfirst, bind_eq_ok.mpr ⟨second, hsecond,
    bind_eq_ok.mpr ⟨third, hthird, ?_⟩⟩⟩
  rw [if_neg (by simpa using hnonempty)]
  rfl

variable (flags instrument) in
theorem exists_binanceConfig : (∃ config, binanceConfig flags instrument = .ok config) ↔
    ∃ limit, flags.getIntWithin "snapshot-limit" 5000 1 5000 = .ok limit := by
  cases hlimit : flags.getIntWithin "snapshot-limit" 5000 1 5000 with
  | ok limit =>
    rw [binanceConfig, hlimit]
    exact iff_of_true ⟨_, rfl⟩ ⟨limit, rfl⟩
  | error message =>
    rw [binanceConfig, hlimit]
    refine iff_of_false ?_ ?_
    · rintro ⟨config, hconfig⟩
      cases hconfig
    · rintro ⟨limit, hok⟩
      cases hok

/-- Which venues are built follows from which are named, however often and in whatever order:
those of the known ones that are. Nothing is built for an unknown name, for none at all, or
for a depth that Binance does not offer. -/
theorem venues_built (flags : Flags) (instrument : String) :
    ((∃ adapters, buildVenues flags instrument = .ok adapters) ↔
      requestedVenues flags ≠ [] ∧ (∀ name ∈ requestedVenues flags, name ∈ kKnownVenues) ∧
        ("binance" ∈ requestedVenues flags →
          ∃ limit, flags.getIntWithin "snapshot-limit" 5000 1 5000 = .ok limit)) ∧
      ∀ adapters, buildVenues flags instrument = .ok adapters →
        adapters.map Adapter.name = kKnownVenues.filter (· ∈ requestedVenues flags) := by
  refine ⟨⟨?_, ?_⟩, fun adapters h => (buildVenues_ok h).1.names⟩
  · rintro ⟨adapters, h⟩
    obtain ⟨hbuilt, hsome, hknown⟩ := buildVenues_ok h
    refine ⟨?_, hknown, fun hwanted => ?_⟩
    · intro hnone
      have hnames := hbuilt.names
      rw [hnone] at hnames
      simp at hnames
      exact hsome hnames
    · rw [buildVenues, find_unknown_eq_none.mpr hknown] at h
      obtain ⟨first, hfirst, -⟩ := bind_eq_ok.mp h
      have hadded := addWanted_ok hfirst
      rw [if_pos hwanted] at hadded
      obtain ⟨a, ha, -⟩ := hadded
      rw [← exists_binanceConfig flags instrument]
      cases hconfig : binanceConfig flags instrument with
      | ok config => exact ⟨config, rfl⟩
      | error message =>
        rw [hconfig] at ha
        cases ha
  · rintro ⟨hsome, hknown, hlimit⟩
    exact exists_buildVenues hsome hknown fun hwanted =>
      (exists_binanceConfig flags instrument).mpr (hlimit hwanted)

end Venues

theorem startup_ok {arguments : List String} {setup : Setup}
    (h : startup arguments = .ok (some setup)) :
    ∃ flags, Built flags kKnownVenues setup.adapters ∧ setup.adapters ≠ [] ∧
      setup.config.maxPublishLevels = 8192 := by
  obtain ⟨flags, -, h⟩ := bind_eq_ok.mp h
  split_ifs at h
  · cases h
  obtain ⟨-, -, h⟩ := bind_eq_ok.mp h
  obtain ⟨adapters, hadapters, h⟩ := bind_eq_ok.mp h
  obtain ⟨maxPublishBps, -, h⟩ := bind_eq_ok.mp h
  obtain ⟨stalenessMs, -, h⟩ := bind_eq_ok.mp h
  cases h
  obtain ⟨hbuilt, hsome, -⟩ := buildVenues_ok hadapters
  exact ⟨flags, hbuilt, hsome, rfl⟩

theorem Built.names_sublist {flags : Flags} {known : List String} {adapters : List Adapter}
    (h : Built flags known adapters) : (adapters.map Adapter.name).Sublist known := by
  rw [h.names]
  exact List.filter_sublist

/-- Whatever the command line started and whatever the venues send: every publication names each
of the selected venues once, as contributing or as stale, and its ladders keep the cap. -/
theorem started_publications (arguments : List String) (setup : Setup)
    (hstart : startup arguments = .ok (some setup)) (parse : JsonParser) (options : Options)
    (capacity : ℕ) (moves : List (AggregatorMove setup.adapters.length)) :
    0 < setup.adapters.length ∧ setup.adapters.length ≤ kMaxVenues ∧
      ∀ pub ∈ (aggregate parse setup.adapters.get options capacity setup.config
          moves).publications,
        let book := pub.book setup.config fun v => ((setup.adapters.get v).protocol parse).name
        (book.contributing ++ book.stale).Perm (setup.adapters.map Adapter.name) ∧
          (book.contributing ++ book.stale).Nodup ∧
          (∀ name ∈ book.contributing ++ book.stale, name ∈ kKnownVenues) ∧
          book.bids.length ≤ 8192 ∧ book.asks.length ≤ 8192 := by
  obtain ⟨flags, hbuilt, hsome, hlevels⟩ := startup_ok hstart
  have hnames := hbuilt.names_sublist
  have hlength : setup.adapters.length ≤ kMaxVenues := by
    rw [← List.length_map Adapter.name]
    exact hnames.length_le
  refine ⟨List.length_pos_iff.mpr hsome, hlength, fun pub hpub => ?_⟩
  intro book
  have hrun := fedRun_admissible parse setup.adapters.get options capacity setup.config moves
  have hinvariant := (hrun.published pub hpub).invariant
  obtain ⟨bidRest, hbids⟩ := Publication.mergedSide_merges setup.config (pub.venues setup.config)
    fun v => (hinvariant v).1
  obtain ⟨askRest, hasks⟩ := Publication.mergedSide_merges setup.config (pub.venues setup.config)
    fun v => (hinvariant v).2
  have hnamed : (List.finRange setup.adapters.length).map
      (fun v => ((setup.adapters.get v).protocol parse).name) =
        setup.adapters.map Adapter.name := by
    conv_rhs => rw [← List.map_get_finRange setup.adapters, List.map_map]
    exact List.map_congr_left fun v _ => Adapter.protocol_name parse _
  have hperm : (book.contributing ++ book.stale).Perm (setup.adapters.map Adapter.name) := by
    rw [← hnamed]
    exact (Engine.contributing_stale setup.config _ _ _ _ _).1
  have hcap : (Engine.mergeLimits setup.config).levelCap = 8192 := by
    simp only [MergeLimits.levelCap, Engine.mergeLimits, hlevels]
    decide
  refine ⟨hperm, ?_, ?_, hcap ▸ hbids.count, hcap ▸ hasks.count⟩
  · exact hperm.nodup_iff.mpr (hnames.nodup (by decide))
  · intro name hname
    exact hnames.subset (hperm.mem_iff.mp hname)

theorem started_publications_two :
    ∃ setup, startup ["--venues=bybit,,binance,bybit"] = .ok (some setup) ∧
      ∃ pub ∈ (aggregate (fun _ => none) setup.adapters.get {} 4 setup.config
          (List.replicate 6 (.engine ⟨2000000000, 2000000000, 0⟩))).publications,
        let book := pub.book setup.config fun v =>
          ((setup.adapters.get v).protocol fun _ => none).name
        (book.contributing ++ book.stale).Perm ["binance", "bybit"] := by
  have hstarted : ((startup ["--venues=bybit,,binance,bybit"]).toOption.join.map fun setup =>
      (setup.adapters.map Adapter.name, (aggregate (fun _ => none) setup.adapters.get {} 4
        setup.config (List.replicate 6 (.engine ⟨2000000000, 2000000000, 0⟩))).publications.length))
      = some (["binance", "bybit"], 1) := by decide +kernel
  obtain ⟨setup, hsetup, hrun⟩ := Option.map_eq_some_iff.mp hstarted
  obtain ⟨hnames, hcount⟩ := Prod.mk.inj hrun
  have hstart : startup ["--venues=bybit,,binance,bybit"] = .ok (some setup) := by
    cases hresult : startup ["--venues=bybit,,binance,bybit"] with
    | error message => simp [hresult, Except.toOption] at hsetup
    | ok result =>
      rw [hresult] at hsetup
      exact congrArg Except.ok hsetup
  obtain ⟨pub, hpub⟩ := List.exists_mem_of_length_pos (hcount ▸ Nat.one_pos)
  obtain ⟨-, -, hall⟩ := started_publications _ setup hstart (fun _ => none) {} 4
    (List.replicate 6 (.engine ⟨2000000000, 2000000000, 0⟩))
  exact ⟨setup, hstart, pub, hpub, hnames ▸ (hall pub hpub).1⟩

end CexAggregator
