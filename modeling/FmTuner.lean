import FmTuner.Daemon
import FmTuner.Listeners
import FmTuner.Main
import FmTuner.Proofs.Correlation
import FmTuner.Proofs.FullScan
import FmTuner.Proofs.Mute
import FmTuner.Proofs.Polling
import FmTuner.Proofs.Stops
import FmTuner.Proofs.Waiting
import FmTuner.Proofs.Sweeps
import FmTuner.Proofs.Arrivals
import FmTuner.Proofs.Accounts
import FmTuner.Proofs.AttributeLog
import FmTuner.Proofs.Outcomes
import FmTuner.Proofs.Observers
import FmTuner.Proofs.Failure
import FmTuner.Proofs.Tuning
import FmTuner.Proofs.StationBuffer
import FmTuner.Proofs.SingleScan
import FmTuner.Proofs.Ascents
import FmTuner.Proofs.Agendas
import FmTuner.Proofs.Schedules
import FmTuner.Proofs.Rounds
import FmTuner.Proofs.Grants
import FmTuner.Proofs.Checks
import FmTuner.Proofs.Errands
import FmTuner.Proofs.Coherence
import FmTuner.Proofs.Stations
import FmTuner.Proofs.Drives
import FmTuner.Proofs.Faultless
import FmTuner.Proofs.Runs
import FmTuner.Proofs.Deadlines
import FmTuner.Proofs.ActionRuns
import FmTuner.Proofs.Audiences
import FmTuner.Proofs.Accesses
import FmTuner.Proofs.Readback
import FmTuner.Proofs.Rounding
import FmTuner.Proofs.Walks
import FmTuner.Proofs.Deeds
import FmTuner.Proofs.Landings
import FmTuner.Proofs.Signals
import FmTuner.Proofs.PowerCycles
import FmTuner.Proofs.RegisterFile
import FmTuner.Proofs.Spellings
import FmTuner.Proofs.StationLimits
