import Pkgly.Algorithm.Networks
import Pkgly.Algorithm.Run
import Pkgly.Algorithm.Text

/-!
# The egress policy, and requests under it

`EgressPolicy` is made of the lists of allowed hosts and CIDRs (`fromSettings`); `validateUrl` checks
a URL, and `resolve` the answer of the DNS for a host name.  `clientBuilder` puts both into a
client: the resolver, and the policy for redirects.

`execute` checks the first URL and hands the request to the client.  From there a request is a
system (`Request`): the client connects to an address for the current URL, or the server redirects
it.  For a domain the client asks its resolver and connects to one of the addresses returned; for an
address in the URL it connects to that address.  The parser of CIDRs is a parameter.
-/

/-!
## Globally routable addresses

`isGlobal` of an address of either family: for IPv4 by its octets, for IPv6 by networks.
-/

namespace Pkgly.Egress

inductive IpAddr
  | v4 (ip : BitVec 32)
  | v6 (ip : BitVec 128)
deriving DecidableEq

def octets (ip : BitVec 32) : Nat × Nat × Nat × Nat :=
  ((ip.extractLsb' 24 8).toNat, (ip.extractLsb' 16 8).toNat, (ip.extractLsb' 8 8).toNat,
    (ip.extractLsb' 0 8).toNat)

/-- `Ipv6Addr::to_ipv4`, of IPv4-compatible and IPv4-mapped addresses. -/
def toIpv4 (ip : BitVec 128) : Option (BitVec 32) :=
  if ip >>> 32 = 0 ∨ ip >>> 32 = 0xffff then some (ip.extractLsb' 0 32) else none

def isInIpv6Network (address network : BitVec 128) (length : Nat) : Bool :=
  address >>> (128 - length) == network >>> (128 - length)

def isIetfGlobalIpv6Exception (address : BitVec 128) : Bool :=
  (decide (0x20010001000000000000000000000001 ≤ address) &&
      decide (address ≤ 0x20010001000000000000000000000003)) ||
    isInIpv6Network address 0x20010003000000000000000000000000 32 ||
    isInIpv6Network address 0x20010004011200000000000000000000 48 ||
    isInIpv6Network address 0x20010020000000000000000000000000 28 ||
    isInIpv6Network address 0x20010030000000000000000000000000 28

/-- The branch of `is_global` for IPv4. -/
def isGlobalV4 (ip : BitVec 32) : Bool :=
  let (a, b, c, d) := octets ip
  !(a == 0 || a == 10 || a == 127 || (a == 100 && (decide (64 ≤ b) && decide (b ≤ 127))) ||
    (a == 169 && b == 254) || (a == 172 && (decide (16 ≤ b) && decide (b ≤ 31))) ||
    (a == 192 && b == 168) || (a == 192 && b == 0 && (c == 0 || c == 2)) ||
    (a == 192 && b == 88 && c == 99) || (a == 198 && (b == 18 || b == 19)) ||
    (a == 198 && b == 51 && c == 100) || (a == 203 && b == 0 && c == 113) ||
    decide (224 ≤ a) || (a == 255 && b == 255 && c == 255 && d == 255))

/-- The branch of `is_global` for IPv6. -/
def isGlobalV6 (ip : BitVec 128) : Bool :=
  if (toIpv4 ip).isSome then false
  else
    let globalUnicast := isInIpv6Network ip 0x20000000000000000000000000000000 3
    let ietfAssignments := isInIpv6Network ip 0x20010000000000000000000000000000 23
    globalUnicast && (!ietfAssignments || isIetfGlobalIpv6Exception ip) &&
      !isInIpv6Network ip 0x20010db8000000000000000000000000 32 &&
      !isInIpv6Network ip 0x20020000000000000000000000000000 16 &&
      !isInIpv6Network ip 0x3fff0000000000000000000000000000 20

def isGlobal : IpAddr → Bool
  | .v4 ip => isGlobalV4 ip
  | .v6 ip => isGlobalV6 ip

end Pkgly.Egress

namespace Pkgly.Egress

inductive IpNet
  | v4 (network : Network 32)
  | v6 (network : Network 128)
deriving DecidableEq

def IpNet.contains : IpNet → IpAddr → Bool
  | .v4 network, .v4 ip => network.contains ip
  | .v6 network, .v6 ip => network.contains ip
  | _, _ => false

structure EgressSettings where
  allowedHosts : List String
  allowedCidrs : List String

inductive EgressPolicyError
  | unsupportedScheme
  | missingHost
  | credentials
  | blocked
  | invalidCidr (value : String)
deriving DecidableEq

inductive Host
  | domain (name : String)
  | ipv4 (ip : BitVec 32)
  | ipv6 (ip : BitVec 128)
deriving DecidableEq

/-- `url::Url`, as far as the policy looks at it. -/
structure Url where
  scheme : String
  username : String
  password : Option String
  hostStr : Option String
  host : Option Host
deriving DecidableEq

structure EgressPolicy where
  allowedHosts : List String
  allowedCidrs : List IpNet
deriving DecidableEq

/-- `trim_end_matches('.')`. -/
def trimEndDots (host : String) : String :=
  String.ofList (host.toList.reverse.dropWhile (· == '.')).reverse

def normalizeHost (host : String) : String := toAsciiLowercase (trimEndDots host)

namespace EgressPolicy

def parseCidr (parse : String → Option IpNet) (value : String) : Except EgressPolicyError IpNet :=
  match parse value with
  | some network => .ok network
  | none => .error (.invalidCidr value)

def fromSettings (parse : String → Option IpNet) (settings : EgressSettings) :
    Except EgressPolicyError EgressPolicy := do
  let allowedCidrs ← settings.allowedCidrs.mapM (parseCidr parse)
  let allowedHosts := (settings.allowedHosts.map normalizeHost).filter fun host => host != ""
  return ⟨allowedHosts, allowedCidrs⟩

def validateAddress (policy : EgressPolicy) (host : String) (address : IpAddr) :
    Except EgressPolicyError Unit :=
  let hostAllowed := policy.allowedHosts.contains (normalizeHost host)
  let rangeAllowed := policy.allowedCidrs.any fun network => network.contains address
  if isGlobal address || hostAllowed || rangeAllowed then .ok () else .error .blocked

def validateUrl (policy : EgressPolicy) (url : Url) : Except EgressPolicyError Unit :=
  if !(url.scheme == "http" || url.scheme == "https") then .error .unsupportedScheme
  else
    match url.hostStr with
    | none => .error .missingHost
    | some host =>
      if url.username != "" || url.password.isSome then .error .credentials
      else
        match url.host with
        | some (.ipv4 ip) => policy.validateAddress host (.v4 ip)
        | some (.ipv6 ip) => policy.validateAddress host (.v6 ip)
        | some (.domain _) => .ok ()
        | none => .error .missingHost

/-- `SafeResolver::resolve`, from the answer of `lookup_host`. -/
def resolve (policy : EgressPolicy) (host : String) (answer : Option (List IpAddr)) :
    Option (List IpAddr) :=
  match answer with
  | none => none
  | some addresses =>
    if addresses.isEmpty then none
    else if addresses.all fun address => (policy.validateAddress host address).isOk then
      some addresses
    else none

end EgressPolicy

/-! ### The client -/

inductive RedirectAction
  | follow
  | stop
  | error
deriving DecidableEq

/-- `reqwest::Client`, as far as it is configured here. -/
structure Client where
  resolve : String → Option (List IpAddr) → Option (List IpAddr)
  redirect : (previous : List Url) → (url : Url) → RedirectAction

def clientBuilder (policy : EgressPolicy) : Client where
  resolve := policy.resolve
  redirect previous url :=
    if 5 ≤ previous.length then .stop
    else if (policy.validateUrl url).isOk then .follow
    else .error

structure Connection where
  host : String
  address : IpAddr
deriving DecidableEq

/-- A request under way; `current` is `none` when it is over.  `connections` lists the connections
made so far. -/
structure Request where
  previous : List Url
  current : Option Url
  connections : List Connection
deriving DecidableEq

inductive RequestAction
  /-- The DNS gives `answer` for the host of the current URL, and the client connects to
  `address`. -/
  | connect (answer : Option (List IpAddr)) (address : IpAddr)
  /-- The server redirects the request. -/
  | redirect (location : Url)

namespace Request

def connected (s : Request) (host : String) (address : IpAddr) : Request :=
  { s with connections := s.connections ++ [⟨host, address⟩] }

def finish (s : Request) : Request := { s with current := none }

/-- Connect to the host of `url`. -/
def stepConnect (client : Client) (s : Request) (url : Url) (answer : Option (List IpAddr))
    (address : IpAddr) : Option Request :=
  match url.host with
  | some (.domain name) =>
    match client.resolve name answer with
    | none => some s.finish
    | some addresses => if address ∈ addresses then some (s.connected name address) else none
  | some (.ipv4 ip) =>
    if address = .v4 ip then some (s.connected (url.hostStr.getD "") address) else none
  | some (.ipv6 ip) =>
    if address = .v6 ip then some (s.connected (url.hostStr.getD "") address) else none
  | none => none

def step (client : Client) (s : Request) : RequestAction → Option Request
  | .connect answer address => s.current.bind fun url => stepConnect client s url answer address
  | .redirect location => s.current.bind fun url =>
    match client.redirect (s.previous ++ [url]) location with
    | .follow => some { s with previous := s.previous ++ [url], current := some location }
    | .stop | .error => some s.finish

end Request

/-- `upstream::execute`, up to the start of the request. -/
def execute (policy : EgressPolicy) (url : Url) : Except EgressPolicyError Request :=
  match policy.validateUrl url with
  | .error _ => .error .blocked
  | .ok () => .ok ⟨[], some url, []⟩

end Pkgly.Egress
