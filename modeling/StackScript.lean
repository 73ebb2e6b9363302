import StackScript.Main
import StackScript.Proofs.Grammar
import StackScript.Proofs.Computation
import StackScript.Proofs.ParserSoundness
import StackScript.Proofs.ParserCompleteness
import StackScript.Proofs.Acceptance
import StackScript.Proofs.Moves
import StackScript.Proofs.Faults
import StackScript.Proofs.Layout
import StackScript.Proofs.Building
import StackScript.Proofs.ControlFlow
import StackScript.Proofs.Representation
import StackScript.Proofs.OperandHeight
import StackScript.Proofs.Interpreter
import StackScript.Proofs.Simulation
import StackScript.Proofs.ScriptTree
import StackScript.Proofs.ActiveCalls
import StackScript.Proofs.LocalTypes
import StackScript.Proofs.Operands
import StackScript.Proofs.CallEffect
import StackScript.Proofs.WellCalled
import StackScript.Proofs.Compilation
import StackScript.Proofs.Declarations
import StackScript.Proofs.Placement
import StackScript.Proofs.DeclarationOrder
import StackScript.Proofs.LexicalGrammar
import StackScript.Proofs.Rendering
import StackScript.Proofs.TreeProgram
import StackScript.Proofs.DirectBuilding
import StackScript.Proofs.Checked
import StackScript.Proofs.BytePositions
import StackScript.Proofs.Emitter
import StackScript.Proofs.Emission
import StackScript.Proofs.Assembly
import StackScript.Proofs.FailedOperations
import StackScript.Proofs.Cursor
import StackScript.Proofs.ScriptAssembly
import StackScript.Proofs.MachineBounds
import StackScript.Proofs.Definedness
import StackScript.Proofs.Limits
import StackScript.Proofs.Lockstep
import StackScript.Proofs.LineIndependence
import StackScript.Proofs.RoundTrip
import StackScript.Proofs.SourceNames
import StackScript.Proofs.InstructionText
import StackScript.Proofs.Listings
import StackScript.Proofs.JumpStructure
import StackScript.Proofs.Tracking
import StackScript.Proofs.Relocation
import StackScript.Proofs.OutputIndependence
import StackScript.Proofs.LimitedOutput
import StackScript.Proofs.Turns
import StackScript.Proofs.RunCommand
import StackScript.Proofs.LazyReading
import StackScript.Proofs.CallProtocol
import StackScript.Proofs.AssignableLocals
import StackScript.Proofs.Chains
import StackScript.Proofs.SeparatedTexts
import StackScript.Proofs.TableHistory
import StackScript.Proofs.NumberLiterals
import StackScript.Proofs.Requests
import StackScript.Proofs.ParserProgress
