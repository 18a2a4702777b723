import Rosette.App.Onboarding
import Rosette.App.PhoneInput
import Rosette.Core.SafetyNumber
import Rosette.Directory.Bootstraps
import Rosette.Directory.ClientIp
import Rosette.Directory.Cooldown
import Rosette.Directory.Guesses
import Rosette.Directory.Races
import Rosette.Directory.Ratchet
import Rosette.Directory.Search
import Rosette.Engine.Attempts
import Rosette.Engine.Padding
import Rosette.Ffi.Badges
import Rosette.Ffi.Dispatch
import Rosette.Ffi.History
import Rosette.Ffi.RelayConfig
import Rosette.Ffi.Rightful
import Rosette.Network.Agreement
import Rosette.Network.Gaps
import Rosette.Network.Links
import Rosette.Network.Surfacing
import Rosette.Proto.Pow
import Rosette.Relay.Acks
import Rosette.Relay.Availability
import Rosette.Relay.Identity
import Rosette.Relay.RateWindow
import Rosette.Relay.Tokens
