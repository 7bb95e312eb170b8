import StateSpectre.AgentCopies
import StateSpectre.Backpressure
import StateSpectre.ColdCopies
import StateSpectre.CompletionRing
import StateSpectre.Completions
import StateSpectre.ControlLayout
import StateSpectre.Deliveries
import StateSpectre.ExportAccounts
import StateSpectre.Gauges
import StateSpectre.Grants
import StateSpectre.Heartbeats
import StateSpectre.Holders
import StateSpectre.Leaks
import StateSpectre.Monotone
import StateSpectre.Nvme.Faults
import StateSpectre.Nvme.Refinement
import StateSpectre.Nvme.RoundTrip
import StateSpectre.ObjectRelease
import StateSpectre.Polling
import StateSpectre.Python.Agreement
import StateSpectre.Python.Handles
import StateSpectre.Python.Sync
import StateSpectre.Python.TensorIds
import StateSpectre.Quota
import StateSpectre.Restores
import StateSpectre.SealedMembers
import StateSpectre.SlotTable
import StateSpectre.Stragglers
import StateSpectre.Transfers
import StateSpectre.Wire.Frame
import StateSpectre.Wire.Messages
import StateSpectre.Yaml.InPlace
import StateSpectre.Yaml.RoundTrip
