import TypedSettings.FileTree
import TypedSettings.Interface.Check
import TypedSettings.Main
import TypedSettings.Proofs.Walk.Trail
import TypedSettings.Store.Host
import TypedSettings.Store.Schema
import TypedSettings.Store.SetText
import TypedSettings.Proofs.Accessor.Registration
import TypedSettings.Proofs.Walk.Account
import TypedSettings.Proofs.Interface.Written
import TypedSettings.Proofs.Unit.Assembly
import TypedSettings.Proofs.Disk.FileTree
import TypedSettings.Proofs.Project.Writing
import TypedSettings.Proofs.Interface.Bounds
import TypedSettings.Proofs.Walk.External
import TypedSettings.Proofs.Interface.Manifests
import TypedSettings.Proofs.Interface.Found
import TypedSettings.Proofs.Project.Isolation
import TypedSettings.Proofs.Accessor.Coverage
import TypedSettings.Proofs.Unit.Actions
import TypedSettings.Proofs.Unit.Levels
import TypedSettings.Proofs.Store.Entries
import TypedSettings.Proofs.Store.Replay
import TypedSettings.Proofs.Source.Parsing
import TypedSettings.Proofs.Source.Literals
import TypedSettings.Proofs.Interface.Agreement
import TypedSettings.Proofs.Source.Advance
import TypedSettings.Proofs.Source.Lexing
import TypedSettings.Proofs.Unit.Needs
import TypedSettings.Proofs.Interface.Names
import TypedSettings.Proofs.Project.Reports
import TypedSettings.Proofs.Project.Batches
import TypedSettings.Proofs.Interface.Spelling
import TypedSettings.Proofs.Interface.Shapes
import TypedSettings.Proofs.Interface.Segments
import TypedSettings.Proofs.Interface.Readback
import TypedSettings.Proofs.Interface.RoundTrip
import TypedSettings.Proofs.Interface.Kept
import TypedSettings.Proofs.Unit.Signatures
import TypedSettings.Proofs.Disk.Replacing
import TypedSettings.Proofs.Project.Rewriting
import TypedSettings.Proofs.Project.Rescan
import TypedSettings.Proofs.Source.Quiet
import TypedSettings.Proofs.Source.QuietPaths
import TypedSettings.Proofs.Unit.Undeclared
import TypedSettings.Proofs.Project.Fixpoint
import TypedSettings.Proofs.Interface.Paths
import TypedSettings.Proofs.Walk.Dangling
import TypedSettings.Proofs.Text.Sorted
import TypedSettings.Proofs.Text.Json
import TypedSettings.Proofs.Store.Announcements
import TypedSettings.Proofs.Store.SetText
import TypedSettings.Proofs.Source.Numerals
import TypedSettings.Proofs.Accessor.Defaults
import TypedSettings.Proofs.Accessor.Pairs
import TypedSettings.Proofs.Unit.Stored
import TypedSettings.Proofs.Accessor.Marks
import TypedSettings.Proofs.Interface.Respelled
import TypedSettings.Proofs.Source.Modules
import TypedSettings.Proofs.Interface.Traits
import TypedSettings.Proofs.Interface.Stripping
import TypedSettings.Proofs.Text.Bytes
import TypedSettings.Proofs.Project.SourceFiles
import TypedSettings.Proofs.Project.Scan
import TypedSettings.Proofs.Unit.Variables
import TypedSettings.Proofs.Unit.Shadowing
import TypedSettings.Proofs.Naming
import TypedSettings.Proofs.Unit.Storing
import TypedSettings.Proofs.Disk.Faults
import TypedSettings.Proofs.FileNames
import TypedSettings.Proofs.Interface.Offered
import TypedSettings.Proofs.Interface.Uses
