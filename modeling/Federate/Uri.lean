import Federate.Naming

/-!
# Addresses

A Federate URI names a domain, a path and a query. It is written natively, `fed://home.fed/a?b`, or
comes from the host and the path of an HTTP request; the native spelling is its printed form.
-/

namespace Federate

open Outcome

/-- `federate_uri::FederateUri`. -/
@[ext] structure FederateUri where
  /-- The domain. -/
  domain : FederateDomain
  /-- The absolute path. -/
  path : String
  /-- The query, unless it is empty. -/
  query : Option String
  deriving DecidableEq

namespace FederateUri

/-- `MAX_PATH_LEN`. -/
def maxPathLen : ℕ := 2048

/-- `bad`. -/
def bad (input reason : String) : FederateError :=
  .notFederateDomain s!"invalid Federate URI '{input}': {reason}"

/-- The characters before which the authority ends. -/
def endsAuthority (c : Char) : Bool := c = '/' || c = '?' || c = '#'

/-- What stands before the path, the query and the fragment. -/
def authority (rest : String) : String :=
  Text.onChars (List.takeWhile fun c => !endsAuthority c) rest

/-- The path, the query and the fragment. -/
def tail (rest : String) : String := Text.onChars (List.dropWhile fun c => !endsAuthority c) rest

/-- `split_once`, then the query unless it is empty. -/
def splitQuery (pathAndQuery : String) : String × Option String :=
  match Text.afterFirst '?' pathAndQuery with
  | some query => (Text.beforeFirst '?' pathAndQuery, (some query).filter fun q => q ≠ "")
  | none => (pathAndQuery, none)

/-- `FederateUri::parse`. -/
def parse (input : String) : Result FederateUri := do
  let s := Text.trim input
  let rest ← okOr (Text.stripPrefix "fed://" s) (bad s "must start with fed://")
  rejectIf (rest = "") (bad s "missing domain")
  rejectIf ('@' ∈ (authority rest).toList) (bad s "userinfo is not allowed in Federate URIs")
  rejectIf (':' ∈ (authority rest).toList)
    (bad s "ports are not allowed; Federate names never carry transport addresses")
  let domain ← FederateDomain.parse (authority rest)
  let (path, query) := splitQuery (Text.beforeFirst '#' (tail rest))
  let path := if path = "" then "/" else path
  rejectIf (path.toList.head? ≠ some '/') (bad s "path must be absolute")
  rejectIf (maxPathLen < Text.byteLen path) (bad s "path too long")
  return ⟨domain, path, query⟩

/-- `FederateUri::from_http`. -/
def fromHttp (host pathAndQuery : String) : Result FederateUri := do
  let domain ← FederateDomain.parse host
  let (path, query) := splitQuery pathAndQuery
  let path := if path = "" then "/" else path
  rejectIf (path.toList.head? ≠ some '/')
    (.notFederateDomain s!"invalid Federate URI '{pathAndQuery}': path must be absolute")
  return ⟨domain, path, query⟩

/-- `FederateUri::fqdn`. -/
def fqdn (uri : FederateUri) : String := uri.domain.fqdn

/-- `Display`: the root path is left out, and the query follows a question mark. -/
def toString (uri : FederateUri) : String :=
  "fed://" ++ uri.domain.fqdn ++ (if uri.path ≠ "/" then uri.path else "") ++
    uri.query.elim "" ("?" ++ ·)

end FederateUri

end Federate
