import AddressExchange.Bytes
import AddressExchange.Cipher
import AddressExchange.Cipher.Labelled
import AddressExchange.CommandLine.Command
import AddressExchange.CommandLine.EnvironmentFile
import AddressExchange.CommandLine.Keygen
import AddressExchange.CommandLine.Options
import AddressExchange.CommandLine.Run
import AddressExchange.CommandLine.Session
import AddressExchange.Crypto.Aes
import AddressExchange.Crypto.Gcm
import AddressExchange.Crypto.Hash
import AddressExchange.Crypto.Keccak
import AddressExchange.Crypto.MlKem
import AddressExchange.Crypto.MlKem.Polynomial
import AddressExchange.Crypto.PayerId
import AddressExchange.Decimal.Shortest
import AddressExchange.Envelope
import AddressExchange.Exchange.Local
import AddressExchange.Exchange.Payer
import AddressExchange.Exchange.Responder
import AddressExchange.Failure
import AddressExchange.Fees.Backoff
import AddressExchange.Fees.ReplayStore
import AddressExchange.Fees.Schedule
import AddressExchange.Fees.Service
import AddressExchange.Files
import AddressExchange.Hex
import AddressExchange.Host
import AddressExchange.Host.Refusal
import AddressExchange.Host.Settings
import AddressExchange.Json.Fault
import AddressExchange.Json.Numeral
import AddressExchange.Json.Reader
import AddressExchange.Json.Record
import AddressExchange.Json.Skip
import AddressExchange.Json.Token
import AddressExchange.Json.Value
import AddressExchange.Keys
import AddressExchange.Main
import AddressExchange.Message
import AddressExchange.Pool
import AddressExchange.Pool.AddressList
import AddressExchange.Pool.Allocation
import AddressExchange.Pool.Entry
import AddressExchange.Pool.Held
import AddressExchange.Pool.Search
import AddressExchange.Pool.Snapshot
import AddressExchange.Pool.Stored
import AddressExchange.Proofs.Bytes
import AddressExchange.Proofs.CommandLine.KeyFiles
import AddressExchange.Proofs.CommandLine.Session
import AddressExchange.Proofs.Crypto.Gcm
import AddressExchange.Proofs.Crypto.Hash
import AddressExchange.Proofs.Crypto.Keccak
import AddressExchange.Proofs.Envelope
import AddressExchange.Proofs.Envelope.Forgery
import AddressExchange.Proofs.Except
import AddressExchange.Proofs.Exchange
import AddressExchange.Proofs.Exchange.Course
import AddressExchange.Proofs.Exchange.Replay
import AddressExchange.Proofs.Fees.Accrual
import AddressExchange.Proofs.Fees.Attempts
import AddressExchange.Proofs.Fees.Backoff
import AddressExchange.Proofs.Fees.Refresh
import AddressExchange.Proofs.Fees.ReplayStore
import AddressExchange.Proofs.Fees.Service
import AddressExchange.Proofs.Fees.Settlement
import AddressExchange.Proofs.Fees.Wallet
import AddressExchange.Proofs.Files
import AddressExchange.Proofs.Files.Tree
import AddressExchange.Proofs.Hex
import AddressExchange.Proofs.Host
import AddressExchange.Proofs.Host.Administration
import AddressExchange.Proofs.Host.Durable
import AddressExchange.Proofs.Host.Hosting
import AddressExchange.Proofs.Host.Refused
import AddressExchange.Proofs.Host.Rejection
import AddressExchange.Proofs.Host.Returning
import AddressExchange.Proofs.Host.Seeding
import AddressExchange.Proofs.Host.Serving
import AddressExchange.Proofs.Json.Reader
import AddressExchange.Proofs.Json.Record
import AddressExchange.Proofs.Pool
import AddressExchange.Proofs.Pool.AddressList
import AddressExchange.Proofs.Pool.Allocation
import AddressExchange.Proofs.Pool.Allocation.Distinct
import AddressExchange.Proofs.Pool.Allocation.Future
import AddressExchange.Proofs.Pool.Allocation.Merged
import AddressExchange.Proofs.Pool.Allocation.Repeated
import AddressExchange.Proofs.Pool.Allocation.Since
import AddressExchange.Proofs.Pool.Change
import AddressExchange.Proofs.Pool.Entry
import AddressExchange.Proofs.Pool.History
import AddressExchange.Proofs.Pool.InPlace
import AddressExchange.Proofs.Pool.Merging
import AddressExchange.Proofs.Pool.Parts
import AddressExchange.Proofs.Pool.Queries
import AddressExchange.Proofs.Pool.Restart
import AddressExchange.Proofs.Pool.Rotation
import AddressExchange.Proofs.Pool.Rotation.Schedule
import AddressExchange.Proofs.Pool.Search
import AddressExchange.Proofs.Pool.Shared
import AddressExchange.Proofs.Pool.Shared.Mark
import AddressExchange.Proofs.Pool.Snapshot
import AddressExchange.Proofs.Pool.Stored
import AddressExchange.Proofs.Text.Blank
import AddressExchange.Proofs.Text.Lines
import AddressExchange.Proofs.Text.Literal
import AddressExchange.Proofs.Time.Calendar
import AddressExchange.Proofs.Time.Instant
import AddressExchange.Proofs.Time.Rfc3339
import AddressExchange.Proofs.Web.Transport
import AddressExchange.Proofs.Wire
import AddressExchange.Proofs.Wire.Grammar
import AddressExchange.Proofs.Wire.RoundTrip
import AddressExchange.Protocol
import AddressExchange.Text.Blank
import AddressExchange.Text.Literal
import AddressExchange.Text.Quoted
import AddressExchange.Text.Utf8
import AddressExchange.Time.Calendar
import AddressExchange.Time.Instant
import AddressExchange.Time.Rfc3339
import AddressExchange.Web.Address
import AddressExchange.Web.Http
import AddressExchange.Web.MediaType
import AddressExchange.Web.Status
import AddressExchange.Web.Transport
import AddressExchange.Web.Url
import AddressExchange.Web.Url.Domain
import AddressExchange.Web.Url.Escape
import AddressExchange.Web.Url.Host
import AddressExchange.Web.Url.Punycode
import AddressExchange.Wire
import AddressExchange.Wire.Frame
import AddressExchange.Proofs.Cipher
