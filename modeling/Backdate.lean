import Backdate.Anchor
import Backdate.Author
import Backdate.Calendar.Date
import Backdate.Calendar.Moment
import Backdate.Calendar.Printer
import Backdate.Calendar.Reader
import Backdate.Command.Arguments
import Backdate.Command.Overview
import Backdate.Command.Run
import Backdate.Command.Session
import Backdate.Event
import Backdate.FileTree
import Backdate.Git
import Backdate.Main
import Backdate.Names
import Backdate.Number.Binary64
import Backdate.Plan.Basic
import Backdate.Plan.Encode
import Backdate.Plan.Schema
import Backdate.Plan.Spec
import Backdate.Recorder
import Backdate.Render
import Backdate.Replay.Report
import Backdate.Replay.Run
import Backdate.Text.Blank
import Backdate.Text.Lines
import Backdate.Text.Printable
import Backdate.Text.Quoted
import Backdate.Text.Style
import Backdate.Text.Utf8
import Backdate.Toml.Document
import Backdate.Toml.Quoting
import Backdate.Toml.Scalar
import Backdate.Toml.Tables
import Backdate.Toml.Value
import Backdate.Tool.Basic
import Backdate.Tool.Outcome
import Backdate.Tool.Stamp
import Backdate.Proofs.Acceptance
import Backdate.Proofs.Attribution
import Backdate.Proofs.Bookkeeping
import Backdate.Proofs.BranchDiscipline
import Backdate.Proofs.Branches
import Backdate.Proofs.Colours
import Backdate.Proofs.Completion
import Backdate.Proofs.Conversations
import Backdate.Proofs.Counting
import Backdate.Proofs.Course
import Backdate.Proofs.Deletions
import Backdate.Proofs.DryRun
import Backdate.Proofs.Encoding
import Backdate.Proofs.EventTables
import Backdate.Proofs.Excerpts
import Backdate.Proofs.Exclusion
import Backdate.Proofs.Explanations
import Backdate.Proofs.Faults
import Backdate.Proofs.Forecast
import Backdate.Proofs.Handover
import Backdate.Proofs.Headings
import Backdate.Proofs.Identities
import Backdate.Proofs.Leftovers
import Backdate.Proofs.Lines
import Backdate.Proofs.LiveRun
import Backdate.Proofs.LockStep
import Backdate.Proofs.Notes
import Backdate.Proofs.Options
import Backdate.Proofs.Paths
import Backdate.Proofs.Preview
import Backdate.Proofs.Processes
import Backdate.Proofs.Recorded
import Backdate.Proofs.Recording
import Backdate.Proofs.ReportLines
import Backdate.Proofs.Resolution
import Backdate.Proofs.Spelling
import Backdate.Proofs.Staging
import Backdate.Proofs.StandIn
import Backdate.Proofs.Steps
import Backdate.Proofs.Totals
import Backdate.Proofs.Undoing
import Backdate.Proofs.Unstaged
import Backdate.Proofs.Validity
import Backdate.Proofs.Ways
