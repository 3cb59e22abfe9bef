import Dwarfkit.Antelope.Chain.Name
import Dwarfkit.Antelope.Chain.Time
import Dwarfkit.Antelope.Chain.Calendar
import Dwarfkit.Antelope.Chain.Keys
import Dwarfkit.Antelope.Chain.Asset
import Dwarfkit.Antelope.Serializer.Traits
import Dwarfkit.Antelope.Chain.Transaction
import Dwarfkit.SigningRequest.IdentityProof
import Dwarfkit.Library.Runs
import Dwarfkit.AbiCache
import Dwarfkit.ActionStream
import Dwarfkit.Antelope.Api.Chain
import Dwarfkit.Library.Paging
import Dwarfkit.Contract.Table
import Dwarfkit.Session.Transact
import Dwarfkit.Antelope.Serializer.Serializer
import Dwarfkit.Antelope.Serializer.RoundTrip
import Dwarfkit.Library.Effects
import Dwarfkit.Core.JsonText
import Dwarfkit.Session.Storage
import Dwarfkit.Session.Plugins
import Dwarfkit.Session.Kit
import Dwarfkit.Session.Store
import Dwarfkit.Session.Restore
import Dwarfkit.Session.Logout
import Dwarfkit.Session.Login
import Dwarfkit.Antelope.Serializer.Structs
import Dwarfkit.Library.Repacking
import Dwarfkit.Core.Base64
import Dwarfkit.SigningRequest.Base64u
import Dwarfkit.SigningRequest.ChainId
import Dwarfkit.SigningRequest.Abi
import Dwarfkit.SigningRequest.Encoding
import Dwarfkit.SigningRequest.Resolve
import Dwarfkit.SigningRequest.Create
import Dwarfkit.SigningRequest.Callback
import Dwarfkit.ProtocolEsr.Esr
import Dwarfkit.Library.Lockstep
import Dwarfkit.Antelope.Serializer.Synthesize
import Dwarfkit.Antelope.Serializer.Nodes
import Dwarfkit.Antelope.Serializer.Agreement
import Dwarfkit.Library.Framing
import Dwarfkit.Antelope.P2P.Provider
import Dwarfkit.Core.Zlib
import Dwarfkit.Antelope.Serializer.Tight
import Dwarfkit.Antelope.Chain.PackedTransaction
import Dwarfkit.Antelope.P2P.Types
import Dwarfkit.Antelope.P2P.Client
import Dwarfkit.Library.Comparison
import Dwarfkit.Account.Permission
import Dwarfkit.Antelope.Chain.AbiForms
import Dwarfkit.Library.DepthFirst
import Dwarfkit.Dkgen.Types
import Dwarfkit.Dkgen.Order
import Dwarfkit.Dkgen.Generator
import Dwarfkit.Dkgen.Dependencies
import Dwarfkit.Antelope.Chain.Resolve
import Dwarfkit.Antelope.Chain.Resolution
import Dwarfkit.Dkgen.Encoding
import Dwarfkit.Antelope.Serializer.Integers
import Dwarfkit.Library.DepthLimited
import Dwarfkit.Antelope.Chain.TypeNames
import Dwarfkit.Antelope.Chain.TypeGraph
import Dwarfkit.Core.Contained
import Dwarfkit.Antelope.Serializer.Contained
import Dwarfkit.ActionStream.Frames
import Dwarfkit.Antelope.Chain.JsonBoundary
import Dwarfkit.Antelope.Serializer.JsonForms
import Dwarfkit.SigningRequest.FromTransaction
import Dwarfkit.Antelope.Serializer.Defaults
import Dwarfkit.Antelope.Serializer.Misreads
import Dwarfkit.Antelope.Serializer.Depth
import Dwarfkit.Session.Context
import Dwarfkit.Plugins.Transact.AutoCorrect
import Dwarfkit.Plugins.Transact.Corrections
import Dwarfkit.SigningRequest.Contained
import Dwarfkit.Plugins.Transact.ResourceProvider
import Dwarfkit.Plugins.Transact.RemotePayloads
import Dwarfkit.Plugins.Transact.Offers
import Dwarfkit.Plugins.Wallet.CloudWallet
import Dwarfkit.Antelope.Serializer.Varint
import Dwarfkit.Antelope.Serializer.Utf8
import Dwarfkit.Antelope.Chain.Base58
import Dwarfkit.Antelope.Serializer.KeyText
import Dwarfkit.Antelope.Chain.AssetText
import Dwarfkit.Antelope.Serializer.AssetForms
import Dwarfkit.Antelope.Chain.NameText
import Dwarfkit.Antelope.Chain.Rounding128
import Dwarfkit.Antelope.Chain.Decimal128
import Dwarfkit.Resources.Decimal
import Dwarfkit.Resources.Ram
import Dwarfkit.Resources.PowerUp
import Dwarfkit.Library.Gregorian
import Dwarfkit.Antelope.Chain.TimeText
import Dwarfkit.SigningRequest.MultiChain
import Dwarfkit.ProtocolEsr.Signatures
import Dwarfkit.SigningRequest.IdentityTransaction
import Dwarfkit.Library.BlockMode
import Dwarfkit.ProtocolEsr.SealedMessages
import Dwarfkit.Account.AuthorityOrder
import Dwarfkit.Dkgen.Identifiers
import Dwarfkit.Antelope.Serializer.Lossless
import Dwarfkit.SigningRequest.Placeholders
import Dwarfkit.Antelope.P2P.NetMessages
import Dwarfkit.Antelope.P2P.Connection
import Dwarfkit.ProtocolEsr.Buoy
import Dwarfkit.ProtocolEsr.WaitForCallback
import Dwarfkit.Library.Retry
import Dwarfkit.Antelope.Chain.PrivateKey
import Dwarfkit.Antelope.Nonce
import Dwarfkit.Antelope.Crypto
import Dwarfkit.Plugins.Wallet.PrivateKey
import Dwarfkit.ProtocolEsr.Sealing
import Dwarfkit.Library.Scripts
import Dwarfkit.Session.Pipeline
import Dwarfkit.Plugins.Wallet.Anchor
import Dwarfkit.Plugins.Wallet.AnchorRuns
import Dwarfkit.Plugins.Wallet.AnchorSign
import Dwarfkit.SigningRequest.Settled
import Dwarfkit.Plugins.Transact.Cosigner
