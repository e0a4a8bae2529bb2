import Videre.Interaction.Progress
import Videre.Interaction.Guarantee
import Videre.Sdk.Protocol
import Videre.Sdk.Host
import Videre.Sdk.Journal
import Videre.Sdk.Finality
import Videre.Sdk.Held
import Videre.Sdk.Home
import Videre.Sdk.Refinement
import Videre.Sdk.Once
import Videre.Sdk.Recovery
import Videre.Interaction.Pool
import Videre.Borsh.Format
import Videre.Wire.StatusBody
import Videre.Wire.Untagged
import Videre.Host.Calls
import Videre.Host.Ledger
import Videre.Host.Discipline
import Videre.Host.Submission
import Videre.Host.Routing
import Videre.Host.WatchSet
import Videre.Host.Epochs
import Videre.Host.Transitions
import Videre.Host.StatusPoll
import Videre.Interaction.Clocked
import Videre.Host.Handshake
import Videre.Host.Deadlines
import Videre.Host.Grace
import Videre.Numeral.BigEndian
import Videre.Sdk.IntentBody
import Videre.Sdk.ValueFlow
import Videre.Host.Window
import Videre.Host.Story
import Videre.Host.Completion
import Videre.Host.Overspend
import Videre.Host.Hint
import Videre.Sdk.Pass
import Videre.Sdk.Disposition
import Videre.Sdk.Parked
import Videre.Queueing.Rounds
import Videre.Sdk.Coverage
import Videre.Interaction.Transcript
import Videre.Sdk.Unsigned
import Videre.Sdk.Accounting
import Videre.Sdk.Commitments
import Videre.Sdk.Refusal
import Videre.Client.Refusals
import Videre.Client.Orders
import Videre.Client.Finish
import Videre.Client.Typed
import Videre.Echo.Venue
import Videre.Flaky.Venue
import Videre.Native.Platform
import Videre.Native.Moves
import Videre.Native.Conduct
import Videre.Native.Recovery
import Videre.Native.Echo
import Videre.Queueing.Channel
import Videre.Host.Delivery
import Videre.Interaction.Life
import Videre.Sdk.Lifecycle
import Videre.Sdk.Report
import Videre.Worker.Block
