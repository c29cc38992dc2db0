import NoiseRust.Rust
import NoiseRust.Crypto
import NoiseRust.SymmetricState
import NoiseRust.Pattern
import NoiseRust.HandshakeState
import NoiseRust.Message
import NoiseRust.Reachable
import NoiseRust.Wrapper
import NoiseRust.Primitives
import NoiseRust.KeySchedule
import NoiseRust.Panics
import NoiseRust.Honest
import NoiseRust.Agreement
import NoiseRust.Network
import NoiseRust.NoiseRustCrypto
