import Federate.Library.Outcome
import Federate.Library.Transition
import Federate.Library.Stateful
import Federate.Library.Text
import Federate.Library.Cut
import Federate.Library.Case
import Federate.Library.Lines
import Federate.Library.Backup
import Federate.Library.Groups
import Federate.Library.Lossy
import Federate.Library.Hex
import Federate.Library.Ip
import Federate.Library.Octets
import Federate.Library.Json
import Federate.Library.Encoding
import Federate.Library.JsonText
import Federate.Library.JsonRead
import Federate.Library.JsonPrint
import Federate.Library.Rows
import Federate.Library.Totals
import Federate.Library.Percent
import Federate.Library.Url
import Federate.Library.Dialogue
import Federate.Core
import Federate.Naming
import Federate.Uri
import Federate.Root
import Federate.Registry
import Federate.Directory
import Federate.Protocol
import Federate.Mutation.Request
import Federate.Mutation.Database
import Federate.Mutation.Action
import Federate.Mutation.Store
import Federate.Mutation.Run
import Federate.Mutation.Ingest
import Federate.Resolution.Environment
import Federate.Transport
import Federate.Resolution.Resolver
import Federate.Resolution.Run
import Federate.Gateway
import Federate.Dns.Wire
import Federate.Dns.Server
import Federate.Relay
import Federate.Cdn
import Federate.DnsService
import Federate.Search
import Federate.Directory.Table
import Federate.Directory.Interleaving
import Federate.Verif.Records
import Federate.Reference.Operations
import Federate.Reference.Resolver
import Federate.Verif.Frame
import Federate.Verif.DirectoryTable
import Federate.Verif.Content
import Federate.Verif.Separation
import Federate.Verif.Names
import Federate.Verif.Parsing
import Federate.Verif.Grant
import Federate.Verif.Commit
import Federate.Verif.Zone
import Federate.Verif.Mirror
import Federate.Reference.Registry
import Federate.Verif.DirectoryKeys
import Federate.Verif.Providers
import Federate.Verif.Authorization
import Federate.Verif.Availability
import Federate.Verif.Revocation
import Federate.Verif.Canonical
import Federate.Verif.Blocked
import Federate.Verif.Signed
import Federate.Verif.Versions
import Federate.Verif.Atomic
import Federate.Verif.Enforcement
import Federate.Verif.Restart
import Federate.Mutation.Restore
import Federate.Verif.Restore
import Federate.Mutation.Seed
import Federate.Mutation.Migration
import Federate.Mutation.Wire
import Federate.Verif.Seed
import Federate.Verif.Migration
import Federate.Verif.Tables
import Federate.Verif.Fetch
import Federate.Verif.Anchor
import Federate.Verif.Resolution
import Federate.Verif.Rollback
import Federate.Verif.Routers
import Federate.Verif.Sizes
import Federate.Verif.Packages
import Federate.Verif.Updates
import Federate.Verif.Paths
import Federate.Verif.Uri
import Federate.Verif.Cdn
import Federate.Verif.Extraction
import Federate.Verif.OptOut
import Federate.Verif.Search
import Federate.Verif.Transport
import Federate.Verif.DnsService
import Federate.Verif.Dns
import Federate.Verif.DnsServer
import Federate.Hosts
import Federate.Verif.Hosts
import Federate.Verif.Endpoints
import Federate.Verif.Relay
import Federate.Verif.Registries
import Federate.Verif.Health
import Federate.Verif.Operators
import Federate.Verif.Spelling
import Federate.Verif.Wire
import Federate.Library.Regex
import Federate.Markdown.Inline
import Federate.Markdown.Blocks
import Federate.Verif.Markdown.Lines
import Federate.Verif.Markdown.Termination
import Federate.Verif.Markdown.Safety
import Federate.Verif.Markdown.Items
import Federate.Library.Chain
import Federate.Mutation.Life
import Federate.Verif.Life
import Federate.Verif.History
import Federate.Verif.Nonces
import Federate.Origin
import Federate.Verif.Visit
import Federate.Verif.Eligibility
import Federate.Library.Tasks
import Federate.Resolution.Refresh
import Federate.Verif.Refresh
import Federate.Deployment
import Federate.Verif.Deployment
