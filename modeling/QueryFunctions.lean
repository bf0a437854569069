import QueryFunctions.Query
import QueryFunctions.Expr.Same
import QueryFunctions.Options.Reading
import QueryFunctions.QueryError.Report
import QueryFunctions.Proofs.Query.CallFree
import QueryFunctions.Proofs.Query.Scoping
import QueryFunctions.Proofs.Query.DepthLimit
import QueryFunctions.Proofs.Query.Discipline
import QueryFunctions.Proofs.Query.EffectOrder
import QueryFunctions.Proofs.Query.Effects
import QueryFunctions.Proofs.Query.Focus
import QueryFunctions.Proofs.Query.Inlining
import QueryFunctions.Proofs.Query.LifeCycle
import QueryFunctions.Proofs.Query.Leniency
import QueryFunctions.Proofs.Query.Names
import QueryFunctions.Proofs.Query.Protocol
import QueryFunctions.Proofs.Query.TailCalls
import QueryFunctions.Proofs.Query.Termination
import QueryFunctions.Proofs.Query.Typing
import QueryFunctions.Proofs.Run.PartialCalls
import QueryFunctions.Proofs.Registry.Reach
import QueryFunctions.Proofs.Scope.Regions
import QueryFunctions.Proofs.Law.Compiling
import QueryFunctions.Proofs.Recursion.Folding
import QueryFunctions.Proofs.Recursion.Guard
import QueryFunctions.Proofs.Recursion.Simplify
import QueryFunctions.Proofs.Recursion.Functions
import QueryFunctions.Proofs.Query.Recursion
import QueryFunctions.Proofs.Compile.Literals
import QueryFunctions.Proofs.Query.Literals
import QueryFunctions.Proofs.SeqType.Bounds
import QueryFunctions.Proofs.Value.Arithmetic
import QueryFunctions.Proofs.Registry.Histories
import QueryFunctions.Proofs.Query.CanonicalForm
import QueryFunctions.Proofs.Query.Concatenation
import QueryFunctions.Proofs.Query.Closures
import QueryFunctions.Proofs.Query.Copies
import QueryFunctions.Proofs.Name.EditDistance
import QueryFunctions.Proofs.Name.Suggestion
import QueryFunctions.Proofs.Run.Random
import QueryFunctions.Proofs.SeqType.Text
import QueryFunctions.Proofs.Source.Position
