import BackupVault.Backup.Answer
import BackupVault.Backup.Client
import BackupVault.Backup.Connection
import BackupVault.Bytes
import BackupVault.ClientError
import BackupVault.Config.Error
import BackupVault.Config.Lines
import BackupVault.Config.SavedIdentity
import BackupVault.Config.ServerConfig
import BackupVault.Config.TransferInfo
import BackupVault.Crypto.Aes
import BackupVault.Crypto.Checksum
import BackupVault.Crypto.Entropy
import BackupVault.Crypto.Error
import BackupVault.Crypto.KeyPair
import BackupVault.Crypto.Modular
import BackupVault.Crypto.Oaep
import BackupVault.Crypto.PublicKey
import BackupVault.Crypto.SessionKey
import BackupVault.Crypto.Sha1
import BackupVault.Encoding.Base64
import BackupVault.Encoding.Der
import BackupVault.IoFailure
import BackupVault.Main
import BackupVault.Native.Disk
import BackupVault.Native.Network
import BackupVault.Native.Serve
import BackupVault.Program.Address
import BackupVault.Program.Client
import BackupVault.Program.ClientCommand
import BackupVault.Program.CommandLine
import BackupVault.Program.Host
import BackupVault.Program.Machine
import BackupVault.Program.Report
import BackupVault.Program.Server
import BackupVault.Program.ServerOptions
import BackupVault.Storage.Error
import BackupVault.Storage.FileTree
import BackupVault.Storage.Path
import BackupVault.Storage.Registry
import BackupVault.Storage.UserDirectory
import BackupVault.Text.Blank
import BackupVault.Text.CharTable
import BackupVault.Text.Decimal
import BackupVault.Text.Lines
import BackupVault.Text.Lossy
import BackupVault.Text.Quoted
import BackupVault.Time.Calendar
import BackupVault.Time.Timestamp
import BackupVault.Toml.Document
import BackupVault.Toml.Scalar
import BackupVault.Toml.Text
import BackupVault.Toml.Value
import BackupVault.Upload.Channel
import BackupVault.Upload.ClientDirectory
import BackupVault.Upload.ClientRecord
import BackupVault.Upload.Conversation
import BackupVault.Upload.Engine
import BackupVault.Upload.Identity
import BackupVault.Upload.Session
import BackupVault.Upload.SessionError
import BackupVault.Upload.Vault
import BackupVault.Wire.ClientId
import BackupVault.Wire.ClientMessage
import BackupVault.Wire.Error
import BackupVault.Wire.Fields
import BackupVault.Wire.Frame
import BackupVault.Wire.Messages
import BackupVault.Wire.Name
import BackupVault.Wire.Reader
import BackupVault.Wire.Request
import BackupVault.Wire.Response
import BackupVault.Wire.ServerMessage
import BackupVault.Wire.Sink
import BackupVault.Wire.Source
import BackupVault.Proofs.Backup.Acknowledged
import BackupVault.Proofs.Backup.Answer
import BackupVault.Proofs.Backup.Client
import BackupVault.Proofs.Backup.Connection
import BackupVault.Proofs.Backup.Growth
import BackupVault.Proofs.Backup.Isolation
import BackupVault.Proofs.Backup.Listing
import BackupVault.Proofs.Backup.Restore
import BackupVault.Proofs.Backup.Transparent
import BackupVault.Proofs.Bytes
import BackupVault.Proofs.Config.IdentityFile
import BackupVault.Proofs.Config.Lines
import BackupVault.Proofs.Config.Rows
import BackupVault.Proofs.Config.SavedIdentity
import BackupVault.Proofs.Config.TransferInfo
import BackupVault.Proofs.Crypto.Aes
import BackupVault.Proofs.Crypto.BitPolynomial
import BackupVault.Proofs.Crypto.Checksum
import BackupVault.Proofs.Crypto.Ciphertexts
import BackupVault.Proofs.Crypto.KeyLine
import BackupVault.Proofs.Crypto.KeyMaterial
import BackupVault.Proofs.Crypto.KeyPair
import BackupVault.Proofs.Crypto.Oaep
import BackupVault.Proofs.Crypto.PublicKey
import BackupVault.Proofs.Crypto.SessionKey
import BackupVault.Proofs.Encoding.Base64
import BackupVault.Proofs.Encoding.Der
import BackupVault.Proofs.Log
import BackupVault.Proofs.Outcome
import BackupVault.Proofs.Storage.Additions
import BackupVault.Proofs.Storage.Calls
import BackupVault.Proofs.Storage.Catalogue
import BackupVault.Proofs.Storage.Concurrent
import BackupVault.Proofs.Storage.FailedStore
import BackupVault.Proofs.Storage.FileTree
import BackupVault.Proofs.Storage.Files
import BackupVault.Proofs.Storage.Isolation
import BackupVault.Proofs.Storage.Layout
import BackupVault.Proofs.Storage.Limits
import BackupVault.Proofs.Storage.Path
import BackupVault.Proofs.Storage.Plain
import BackupVault.Proofs.Storage.ReadBack
import BackupVault.Proofs.Storage.Regions
import BackupVault.Proofs.Storage.Registry
import BackupVault.Proofs.Storage.Results
import BackupVault.Proofs.Storage.Serial
import BackupVault.Proofs.Text.Ascii
import BackupVault.Proofs.Text.Blank
import BackupVault.Proofs.Text.Digits
import BackupVault.Proofs.Text.Lines
import BackupVault.Proofs.Text.Order
import BackupVault.Proofs.Time.Calendar
import BackupVault.Proofs.Time.Timestamp
import BackupVault.Proofs.Toml.Document
import BackupVault.Proofs.Toml.Text
import BackupVault.Proofs.Upload.Calls
import BackupVault.Proofs.Upload.ClientChanges
import BackupVault.Proofs.Upload.ClientDirectory
import BackupVault.Proofs.Upload.ClientRecord
import BackupVault.Proofs.Upload.DamagedUpload
import BackupVault.Proofs.Upload.EngineConduct
import BackupVault.Proofs.Upload.EngineRun
import BackupVault.Proofs.Upload.EngineScript
import BackupVault.Proofs.Upload.EngineStages
import BackupVault.Proofs.Upload.GainedIdentity
import BackupVault.Proofs.Upload.History
import BackupVault.Proofs.Upload.KeyExchange
import BackupVault.Proofs.Upload.Link
import BackupVault.Proofs.Upload.Loading
import BackupVault.Proofs.Upload.Paperwork
import BackupVault.Proofs.Upload.Saving
import BackupVault.Proofs.Upload.SessionConduct
import BackupVault.Proofs.Upload.SessionFiles
import BackupVault.Proofs.Upload.SessionLog
import BackupVault.Proofs.Upload.SessionStages
import BackupVault.Proofs.Upload.Uploaded
import BackupVault.Proofs.Upload.Vault
import BackupVault.Proofs.Wire.Accounting
import BackupVault.Proofs.Wire.Blocks
import BackupVault.Proofs.Wire.Canonical
import BackupVault.Proofs.Wire.Encoding
import BackupVault.Proofs.Wire.Fields
import BackupVault.Proofs.Wire.Header
import BackupVault.Proofs.Wire.Name
import BackupVault.Proofs.Wire.Pipe
import BackupVault.Proofs.Wire.Reading
import BackupVault.Proofs.Wire.RoundTrip
import BackupVault.Proofs.Wire.Sizes
import BackupVault.Proofs.Wire.Truncation
import BackupVault.Proofs.Wire.Written
