import TwinScript.Main
import TwinScript.Value.Inspect
import TwinScript.Proofs.Eval.Control
import TwinScript.Proofs.Eval.StepLimit
import TwinScript.Proofs.Eval.Restriction
import TwinScript.Proofs.Eval.Termination
import TwinScript.Proofs.Value.Likeness
import TwinScript.Proofs.Eval.Likeness
import TwinScript.Proofs.Syntax.Programs
import TwinScript.Proofs.Vocabularies
import TwinScript.Proofs.Composition
import TwinScript.Proofs.Truncation
import TwinScript.Proofs.Output
import TwinScript.Proofs.Syntax.Taking
import TwinScript.Proofs.Syntax.ReadBack.Programs
import TwinScript.Proofs.Token.Tiling
import TwinScript.Proofs.Eval.Scoping
import TwinScript.Proofs.Eval.Names
import TwinScript.Proofs.Scopes
import TwinScript.Proofs.Region
import TwinScript.Proofs.Isolation
import TwinScript.Proofs.Session.Boundaries
import TwinScript.Proofs.Session.InertInput
import TwinScript.Proofs.Syntax.Display
import TwinScript.Proofs.Syntax.NestingLimit
import TwinScript.Proofs.Diagnostics
import TwinScript.Proofs.ModuleNames
import TwinScript.Proofs.Literals
import TwinScript.Proofs.Syntax.Precedence
import TwinScript.Proofs.Syntax.FirstError
import TwinScript.Proofs.Token.Quotation
import TwinScript.Proofs.Token.Spacing
import TwinScript.Proofs.Numerals
import TwinScript.Proofs.Eval.ArgumentCount
import TwinScript.Proofs.Eval.Recursion
import TwinScript.Proofs.Shadowing
import TwinScript.Proofs.Eval.Watched
import TwinScript.Proofs.Eval.Moments
import TwinScript.Proofs.CallDepth
import TwinScript.Proofs.Identity
import TwinScript.Proofs.Value.Renaming
import TwinScript.Proofs.Eval.Renaming
import TwinScript.Proofs.Eval.Guards
import TwinScript.Proofs.Chains
import TwinScript.Proofs.FrameTree
import TwinScript.Proofs.Syntax.Descent
import TwinScript.Proofs.Syntax.Progress
import TwinScript.Proofs.Syntax.Functions
