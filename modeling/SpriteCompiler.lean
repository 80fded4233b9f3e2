import SpriteCompiler.Json.Reader
import SpriteCompiler.Json.Decode
import SpriteCompiler.Source.SourceMap
import SpriteCompiler.Folding
import SpriteCompiler.Program.Decode
import SpriteCompiler.Block.Text
import SpriteCompiler.Block.Script
import SpriteCompiler.Diagnostic.Listing
import SpriteCompiler.Diagnostic.Suggestion
import SpriteCompiler.Stack.Release
import SpriteCompiler.Lowering.Expr
import SpriteCompiler.Compilation
import SpriteCompiler.Config
import SpriteCompiler.Proofs.Compilation
import SpriteCompiler.Proofs.Compilation.Independence
import SpriteCompiler.Proofs.Scope.Refinement
import SpriteCompiler.Proofs.Meaning.Preservation
import SpriteCompiler.Proofs.Stack.Balance
import SpriteCompiler.Proofs.Stack.Access
import SpriteCompiler.Proofs.Block.Folding
import SpriteCompiler.Proofs.Code.Folding
import SpriteCompiler.Proofs.Lowering.Acceptance
import SpriteCompiler.Proofs.Block.Reference
import SpriteCompiler.Proofs.Code.Reference
import SpriteCompiler.Proofs.Lowering.Placeholder
import SpriteCompiler.Proofs.Compilation.Resolution
import SpriteCompiler.Proofs.Compilation.Capture
import SpriteCompiler.Proofs.Json.Accessors
import SpriteCompiler.Proofs.Program.RoundTrip
import SpriteCompiler.Proofs.Program.Written
import SpriteCompiler.Proofs.Block.Decode
import SpriteCompiler.Proofs.Lowering.Renaming
import SpriteCompiler.Proofs.Lowering.TrailingScope
import SpriteCompiler.Proofs.Meaning.Declaration
import SpriteCompiler.Proofs.Meaning.Assignment
import SpriteCompiler.Proofs.Meaning.Runner
import SpriteCompiler.Proofs.Meaning.Switch
import SpriteCompiler.Proofs.Meaning.Unrolling
import SpriteCompiler.Proofs.Scope.Visibility
import SpriteCompiler.Proofs.Lowering.Suggestion
import SpriteCompiler.Proofs.Text.EditDistance
import SpriteCompiler.Proofs.Diagnostic.Ranking
import SpriteCompiler.Proofs.Source.Position
import SpriteCompiler.Proofs.Compilation.FirstWins
import SpriteCompiler.Proofs.Lowering.Locality
