import Discordium.Core.Combat.Sampling
import Discordium.Dreamwake.Client.Retry
import Discordium.Dreamwake.Server.Fencing
import Discordium.Dreamwake.Server.Lockstep
import Discordium.Dreamwake.Simulation.Disclosure
import Discordium.Dreamwake.Simulation.Roster
import Discordium.Net.Baselines.BytePatch
import Discordium.Net.CombatTiming
import Discordium.Net.Commands.Audit
import Discordium.Net.Commands.Continuity
import Discordium.Net.Events.Idempotence
import Discordium.Net.Events.Terminal
import Discordium.Net.Input
import Discordium.Net.Interest.Closure
import Discordium.Net.Interpolation.Fences
import Discordium.Net.Outcomes.Sharing
import Discordium.Net.Prediction.Topology
import Discordium.Net.Replication.Agreement
import Discordium.Net.Replication.Ghosts
import Discordium.Net.Replication.Rejections
import Discordium.Net.Scheduling.Metering
import Discordium.Net.Synchronization.Lead
