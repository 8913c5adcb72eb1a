import LoxSyntax.Expr.Equality
import LoxSyntax.Expr.Traversal
import LoxSyntax.Main
import LoxSyntax.Sample
import LoxSyntax.Proofs.Expr.Viability
import LoxSyntax.Proofs.Token.Placement
import LoxSyntax.Proofs.Token.Operations
import LoxSyntax.Proofs.Expr.Operations
import LoxSyntax.Proofs.Expr.Assembled
import LoxSyntax.Proofs.Expr.Extent
import LoxSyntax.Proofs.Outcome
import LoxSyntax.Proofs.Token.Lookahead
import LoxSyntax.Proofs.Token.Blanking
import LoxSyntax.Proofs.Expr.Unplaced
import LoxSyntax.Proofs.Token.Gaps
import LoxSyntax.Proofs.Token.Quoting
import LoxSyntax.Proofs.Token.Joining
import LoxSyntax.Proofs.Token.History
import LoxSyntax.Proofs.Run
import LoxSyntax.Proofs.Session
import LoxSyntax.Proofs.Diagnostic.Listing
import LoxSyntax.Proofs.Diagnostic.Offending
import LoxSyntax.Proofs.Diagnostic.Report
import LoxSyntax.Proofs.Diagnostic.Raising
import LoxSyntax.Proofs.Token.Continuing
import LoxSyntax.Proofs.Expr.Visiting
import LoxSyntax.Proofs.Expr.Containment
import LoxSyntax.Proofs.Expr.Printed
