import UpsSetup.Main
import UpsSetup.Proofs.AbortedRuns
import UpsSetup.Proofs.Additions
import UpsSetup.Proofs.Assignments
import UpsSetup.Proofs.Batches
import UpsSetup.Proofs.Changes
import UpsSetup.Proofs.Comments
import UpsSetup.Proofs.Descriptions
import UpsSetup.Proofs.DeviceNames
import UpsSetup.Proofs.DeviceRoundTrip
import UpsSetup.Proofs.Devices
import UpsSetup.Proofs.Directives
import UpsSetup.Proofs.DroppedComments
import UpsSetup.Proofs.Editing
import UpsSetup.Proofs.ExitCodes
import UpsSetup.Proofs.Failures
import UpsSetup.Proofs.FileRoundTrip
import UpsSetup.Proofs.Grammar
import UpsSetup.Proofs.Grouping
import UpsSetup.Proofs.Headers
import UpsSetup.Proofs.HostPorts
import UpsSetup.Proofs.Jobs
import UpsSetup.Proofs.Layouts
import UpsSetup.Proofs.LineElements
import UpsSetup.Proofs.Lines
import UpsSetup.Proofs.MergeLaws
import UpsSetup.Proofs.MergedSections
import UpsSetup.Proofs.Merging
import UpsSetup.Proofs.ModeChanges
import UpsSetup.Proofs.ModeLines
import UpsSetup.Proofs.Modes
import UpsSetup.Proofs.Numerals
import UpsSetup.Proofs.OneFile
import UpsSetup.Proofs.OptionOrder
import UpsSetup.Proofs.Places
import UpsSetup.Proofs.Prefixes
import UpsSetup.Proofs.ProblemLists
import UpsSetup.Proofs.Progress
import UpsSetup.Proofs.Reading
import UpsSetup.Proofs.Records
import UpsSetup.Proofs.Results
import UpsSetup.Proofs.Runs
import UpsSetup.Proofs.Sections
import UpsSetup.Proofs.Shielding
import UpsSetup.Proofs.Storage
import UpsSetup.Proofs.StoredDocuments
import UpsSetup.Proofs.Tokens
import UpsSetup.Proofs.TouchedFiles
import UpsSetup.Proofs.Trees
