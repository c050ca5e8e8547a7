import ScriptDesk.Main
import ScriptDesk.Proofs.Agreement
import ScriptDesk.Proofs.Armed
import ScriptDesk.Proofs.Flight
import ScriptDesk.Proofs.Lane
import ScriptDesk.Proofs.Simulation
import ScriptDesk.Proofs.Builtin
import ScriptDesk.Proofs.Coverage
import ScriptDesk.Proofs.Mirror
import ScriptDesk.Proofs.Rest
import ScriptDesk.Proofs.Scratch
import ScriptDesk.Proofs.Passes
import ScriptDesk.Proofs.Bookkeeping
import ScriptDesk.Proofs.Account
import ScriptDesk.Proofs.Closed
import ScriptDesk.Proofs.Debounce
import ScriptDesk.Proofs.Starvation
import ScriptDesk.Proofs.Record
import ScriptDesk.Pass.Call
import ScriptDesk.Proofs.Turns
import ScriptDesk.Pass.Dispatcher
import ScriptDesk.Proofs.ExactlyOnce
import ScriptDesk.Proofs.Arrivals
import ScriptDesk.Proofs.Segments
import ScriptDesk.Proofs.Table
import ScriptDesk.Script.Grammar
import ScriptDesk.Proofs.Grammar
import ScriptDesk.Proofs.Layout
import ScriptDesk.Proofs.Findings
import ScriptDesk.Proofs.Zipper
import ScriptDesk.Proofs.Layers
import ScriptDesk.Proofs.Arguments
import ScriptDesk.Proofs.Reports
import ScriptDesk.Proofs.Solitary
import ScriptDesk.Proofs.Watching
import ScriptDesk.Navigation.Journey
import ScriptDesk.Proofs.Journey
import ScriptDesk.Proofs.Moves
import ScriptDesk.Script.Passage
import ScriptDesk.Proofs.Cleaning
import ScriptDesk.Proofs.Columns
import ScriptDesk.Proofs.Inert
import ScriptDesk.Proofs.NameTables
import ScriptDesk.Proofs.Headers
import ScriptDesk.Proofs.Folding
import ScriptDesk.Proofs.Words
import ScriptDesk.Proofs.Pointing
import ScriptDesk.Proofs.Locating
import ScriptDesk.Proofs.Wakeup
import ScriptDesk.Text.Offset
import ScriptDesk.Proofs.Numerals
import ScriptDesk.Proofs.Locations
import ScriptDesk.Proofs.Calls
import ScriptDesk.Proofs.Notices
import ScriptDesk.Proofs.Locality
