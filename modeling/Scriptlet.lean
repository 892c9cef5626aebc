import Scriptlet.Command.Launch
import Scriptlet.Host.Memory
import Scriptlet.Json.Reader
import Scriptlet.Main
import Scriptlet.Syntax.Equality
import Scriptlet.Proofs.Meaning.Agreement
import Scriptlet.Proofs.Reader.Scripts
import Scriptlet.Proofs.Session.Composition
import Scriptlet.Proofs.Machine.Effects
import Scriptlet.Proofs.Session.Calls
import Scriptlet.Proofs.Reader.Passages
import Scriptlet.Proofs.Reader.Soundness
import Scriptlet.Proofs.Reader.Building
import Scriptlet.Proofs.Reader.Acceptance
import Scriptlet.Proofs.Prompt.Brackets
import Scriptlet.Proofs.Reader.Joining
import Scriptlet.Proofs.Session.Parts
import Scriptlet.Proofs.Prompt.Lines
import Scriptlet.Proofs.Collection.Collector
import Scriptlet.Proofs.Collection.Locality
import Scriptlet.Proofs.Collection.Transparency
import Scriptlet.Proofs.Session.Integrity
import Scriptlet.Proofs.Reader.Seams
import Scriptlet.Proofs.Json.RoundTrip
import Scriptlet.Proofs.Syntax.Lossless
import Scriptlet.Proofs.Session.Depth
import Scriptlet.Proofs.Session.Lexical
import Scriptlet.Proofs.Session.Stacks
import Scriptlet.Proofs.Machine.Failures
import Scriptlet.Proofs.Session.Locations
import Scriptlet.Proofs.Workload.Sums
import Scriptlet.Proofs.Number.Integers
import Scriptlet.Proofs.Workload.Evaluation
import Scriptlet.Proofs.Workload.Runs
import Scriptlet.Proofs.Machine.Layouts
import Scriptlet.Proofs.Number.Modulo
import Scriptlet.Proofs.Number.Nearest
import Scriptlet.Proofs.Number.Shortest
import Scriptlet.Proofs.Number.Texts
import Scriptlet.Proofs.Machine.Settings
import Scriptlet.Proofs.Session.Truncation
import Scriptlet.Proofs.Session.Definitions
import Scriptlet.Proofs.Bytecode.Interning
