import FleetJobs.Gateway.Rehearsal
import FleetJobs.Job.Catalogue
import FleetJobs.Main
import FleetJobs.Proofs.CandidateOrder
import FleetJobs.Proofs.FanOut
import FleetJobs.Proofs.PassResume
import FleetJobs.Proofs.StoreInvariant
import FleetJobs.Proofs.Repetition
import FleetJobs.Proofs.PassCompletion
import FleetJobs.Proofs.Checkpoints
import FleetJobs.Proofs.Discovery
import FleetJobs.Proofs.DeviceSearch
import FleetJobs.Proofs.SerialRuns
import FleetJobs.Proofs.Provisioning
import FleetJobs.Proofs.JsonTexts
import FleetJobs.Proofs.ShellLines
import FleetJobs.Proofs.FormatArguments
import FleetJobs.Proofs.ConfParams
import FleetJobs.Proofs.StepCalls
import FleetJobs.Proofs.Versions
import FleetJobs.Proofs.Commitment
import FleetJobs.Proofs.Links
import FleetJobs.Proofs.StepTerms
import FleetJobs.Proofs.StepClosure
import FleetJobs.Proofs.Footprints
import FleetJobs.Proofs.Independence
import FleetJobs.Proofs.RunResult
import FleetJobs.Proofs.JobRecords
import FleetJobs.Proofs.SavedInventories
import FleetJobs.Proofs.LastCommand
import FleetJobs.Proofs.FormatSources
import FleetJobs.Proofs.DeviceAnswers
import FleetJobs.Proofs.JobFiles
