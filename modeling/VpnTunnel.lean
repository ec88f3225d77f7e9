import VpnTunnel.Lib.WordBits
import VpnTunnel.Lib.Window
import VpnTunnel.Lib.Octets
import VpnTunnel.Config
import VpnTunnel.Replay
import VpnTunnel.Packet
import VpnTunnel.Crypto
import VpnTunnel.Routing
import VpnTunnel.Transport
import VpnTunnel.Peer
import VpnTunnel.Handshake
import VpnTunnel.Lib.Machine
import VpnTunnel.Daemon
import VpnTunnel.ChannelSafety
import VpnTunnel.ToySodium
import VpnTunnel.Lib.OneTime
import VpnTunnel.SessionKeys
import VpnTunnel.NonceUse
import VpnTunnel.InitiationReplay
import VpnTunnel.HonestHandshake
import VpnTunnel.SymbolicSodium
import VpnTunnel.TranscriptAgreement
import VpnTunnel.IndexAgreement
import VpnTunnel.InboundFrame
import VpnTunnel.Delivery
import VpnTunnel.ResponseReplay
import VpnTunnel.SessionIndex
import VpnTunnel.Rekey
import VpnTunnel.Lib.Deduction
import VpnTunnel.Secrecy
import VpnTunnel.ForwardSecrecy
import VpnTunnel.WireCodec
import VpnTunnel.Malleability
import VpnTunnel.PacketSizes
import VpnTunnel.InnerVersion
import VpnTunnel.Mac1
import VpnTunnel.Lib.CString
import VpnTunnel.Registration
import VpnTunnel.LaterInitiations
import VpnTunnel.KeyText
import VpnTunnel.CidrText
import VpnTunnel.EndpointText
import VpnTunnel.OutputParameters
import VpnTunnel.Lib.WordValue
import VpnTunnel.BitmapSlide
import VpnTunnel.Lib.Scratch
import VpnTunnel.SecretWiping
import VpnTunnel.Network
import VpnTunnel.Authentication
import VpnTunnel.Lib.Memory
import VpnTunnel.Buffers
import VpnTunnel.Lib.LittleEndian
import VpnTunnel.Lib.Blocks
import VpnTunnel.Libsodium.ChaCha20
import VpnTunnel.Libsodium.Poly1305
import VpnTunnel.Libsodium.Aead
import VpnTunnel.Lib.Channel
import VpnTunnel.Tunnel
import VpnTunnel.TunnelSetup
import VpnTunnel.KeystreamUse
import VpnTunnel.Exposure
import VpnTunnel.SessionLifecycle
import VpnTunnel.Lifecycle
import VpnTunnel.Libsodium.Blake2b
import VpnTunnel.KeyDerivation
import VpnTunnel.PeerIsolation
