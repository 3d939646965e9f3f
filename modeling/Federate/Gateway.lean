import Federate.Resolution.Resolver
import Federate.Uri

/-!
# The HTTP gateway

A browser asks for a host and a path; the gateway hands them to the resolver as a Federate URI. On
the other side a publisher collects the files of a directory into the manifest under their relative
paths. How a resolution is shown to the browser is left out.
-/

namespace Federate

open Outcome Stateful

namespace Gateway

/-- `MAX_PATH_LEN`. -/
def maxPathLen : ℕ := 2048

/-- A method of HTTP. -/
inductive Method where
  | get | head | other
  deriving DecidableEq

/-- What the gateway answers. -/
inductive Reply where
  | methodNotAllowed
  | uriTooLong
  | notFound
  | resolved (outcome : Result Resolved)

/-- The part of `handle` before the resolver: the URI that a request asks for, or the answer. The
path comes without the query. -/
def translate (method : Method) (host : Option String) (path : String) : Except Reply FederateUri :=
  if method ≠ .get ∧ method ≠ .head then .error .methodNotAllowed
  else if maxPathLen < Text.byteLen path then .error .uriTooLong
  else
    match FederateUri.fromHttp (host.getD "") path with
    | .ok uri => .ok uri
    | .error _ => .error .notFound

variable [Externals] [SerdeDocuments] [ResolverExternals]

/-- `handle`, up to how the outcome is shown. -/
def handle (r : Resolver) (env : Environment) (method : Method) (host : Option String)
    (path : String) : ResolverM Reply :=
  match translate method host path with
  | .error reply => return reply
  | .ok uri => return .resolved (← attempt (r.resolve env uri.fqdn uri.path))

end Gateway

/-! ## Publishing -/

/-- A file of a site directory: its path below the directory, as text, and its content. -/
structure SiteFile where
  /-- Relative path. -/
  path : String
  /-- Content. -/
  bytes : Bytes

/-- The backslash. -/
def backslash : Char := Char.ofNat 92

/-- The key of a file: backslashes become slashes. -/
def SiteFile.rel (file : SiteFile) : String :=
  Text.onChars (List.map fun c => if c = backslash then '/' else c) file.path

section Collect

variable [Externals]

/-- The loop of `collect_site_blocks`: the keys with their addresses, and the blocks. -/
def collectFiles (site : List SiteFile) : Table String String × List (String × Bytes) :=
  site.foldl (fun (files, blocks) file =>
    (files.insert file.rel (hashBytes file.bytes), blocks ++ [(hashBytes file.bytes, file.bytes)]))
    (∅, [])

/-- `collect_site_blocks`: a directory without `index.html` ends the program. -/
def collectSiteBlocks (site : List SiteFile) :
    Option (Table String String × List (String × Bytes)) :=
  let collected := collectFiles site
  if "index.html" ∈ collected.1 then some collected else none

end Collect

end Federate
