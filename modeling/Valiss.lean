import Valiss.Lib.Unicode
import Valiss.Lib.Base64
import Valiss.Lib.Base32
import Valiss.Lib.JsonRoundTrip
import Valiss.Lib.JsonEscape
import Valiss.Lib.IsoTime
import Valiss.Lib.Fallible
import Valiss.Lib.Runs
import Valiss.Errors
import Valiss.Nkeys
import Valiss.Codec
import Valiss.TokenClaims
import Valiss.Mint
import Valiss.Decode
import Valiss.TokenRoundTrip
import Valiss.RequestSignature
import Valiss.Replay
import Valiss.Operators
import Valiss.Verify
import Valiss.Message
import Valiss.Chains
import Valiss.Credentials
import Valiss.MsgTransport
import Valiss.TransportExt
import Valiss.HttpAuth
import Valiss.GrpcAuth
import Valiss.HttpSig
import Valiss.SigningHistory
import Valiss.Recorded
import Valiss.RequestSoundness
import Valiss.ReplayRuns
import Valiss.MessageSoundness
import Valiss.KeyringRefinement
import Valiss.ContextBinding
import Valiss.Destination
import Valiss.ChainCacheRuns
import Valiss.ExtensionShape
import Valiss.Exchange
import Valiss.Negotiation
import Valiss.HostileTokens
import Valiss.HostileMessages
import Valiss.SelfContained
import Valiss.EvictionRuns
import Valiss.KeyringNames
import Valiss.IssuedTokens
import Valiss.ExpiryKept
import Valiss.Reasons
import Valiss.Asgi
import Valiss.Lib.Percent
import Valiss.Lib.Url
import Valiss.PreparedRequests
import Valiss.HonestClient
import Valiss.ChainCacheHistory
import Valiss.ReplayHistory
import Valiss.KeyText
import Valiss.CredsSections
import Valiss.CredsGrammar
import Valiss.CredsRoundTrip
import Valiss.Printing
import Valiss.KeyringOrder
import Valiss.EffectOrder
import Valiss.Lib.Windows
import Valiss.WindowsCompose
import Valiss.MintedExtensions
import Valiss.DetachedChains
import Valiss.TokenIds
import Valiss.Lib.Crc
import Valiss.TypingSlips
import Valiss.Allowlist
import Valiss.BodyReplay
import Valiss.Lib.Dialogue
import Valiss.GrpcSig
import Valiss.MessageClients
import Valiss.TwoSends
import Valiss.Webhook
import Valiss.Wire
import Valiss.Sessions
import Valiss.Provenance
import Valiss.Agreement
import Valiss.Revocation
import Valiss.Rotation
import Valiss.Lib.Scoped
import Valiss.Handlers
import Valiss.Lib.Layers
import Valiss.Django
import Valiss.Stacks
import Valiss.ExactlyOnce
import Valiss.CredentialClients
import Valiss.Lib.Linearization
import Valiss.AtomicVerify
import Valiss.CacheExtent
