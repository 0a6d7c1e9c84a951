import CexAggregator.Fixed

/-!
# Endpoint addresses

One parser for the four schemes. The port separator is looked for behind the last closing
bracket, since a bracketed IPv6 literal has colons of its own.
-/

namespace CexAggregator

structure Url where
  secure : Bool := false
  scheme : String
  host : Bytes
  port : Bytes
  target : Bytes := utf8 "/"
deriving DecidableEq

structure Scheme where
  lead : String
  name : String
  secure : Bool
  defaultPort : String

def kSchemes : List Scheme :=
  [⟨"wss://", "wss", true, "443"⟩, ⟨"ws://", "ws", false, "80"⟩,
    ⟨"https://", "https", true, "443"⟩, ⟨"http://", "http", false, "80"⟩]

def slash : UInt8 := 47
def colon : UInt8 := 58
def openBracket : UInt8 := 91
def closeBracket : UInt8 := 93

/-- Everything up to the last closing bracket, and the rest. -/
def splitBrackets (authority : Bytes) : Bytes × Bytes :=
  let rest := (authority.reverse.takeWhile (· ≠ closeBracket)).reverse
  (authority.take (authority.length - rest.length), rest)

def stripBrackets (host : Bytes) : Bytes :=
  if 2 ≤ host.length ∧ host.head? = some openBracket ∧ host.getLast? = some closeBracket then
    (host.drop 1).dropLast
  else host

def parseAuthority (defaultPort : Bytes) (authority : Bytes) : Option (Bytes × Bytes) :=
  let (bracketed, rest) := splitBrackets authority
  match rest.dropWhile (· ≠ colon) with
  | [] => some (authority, defaultPort)
  | _ :: port =>
    if port = [] then none else some (bracketed ++ rest.takeWhile (· ≠ colon), port)

def parseUrl (url : Bytes) : Option Url :=
  match kSchemes.find? fun candidate => (utf8 candidate.lead).isPrefixOf url with
  | none => none
  | some scheme =>
    let rest := url.drop (utf8 scheme.lead).length
    let authority := rest.takeWhile (· ≠ slash)
    let path := rest.dropWhile (· ≠ slash)
    if authority = [] then none
    else
      match parseAuthority (utf8 scheme.defaultPort) authority with
      | none => none
      | some (host, port) =>
        if stripBrackets host = [] then none
        else
          some
            { secure := scheme.secure
              scheme := scheme.name
              host := stripBrackets host
              port := port
              target := if path = [] then utf8 "/" else path }

example : (parseUrl (utf8 "wss://[::1]:9443/ws/a:b]")).map (fun url => (url.host, url.port)) =
    some (utf8 "::1", utf8 "9443") := by decide +kernel

end CexAggregator
