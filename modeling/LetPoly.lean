import LetPoly.Names
import LetPoly.Scope
import LetPoly.Kind.Unify
import LetPoly.Ty.Place
import LetPoly.Ty.Unify
import LetPoly.Ty.Quantify
import LetPoly.Unification.Unifier
import LetPoly.Syntax.Expr
import LetPoly.Syntax.Fill
import LetPoly.Kinding.Recorded
import LetPoly.Kinding.Record
import LetPoly.Kinding.Group
import LetPoly.Typing.Stage
import LetPoly.Typing.Infer
import LetPoly.Check
import LetPoly.Main
import LetPoly.Proofs.Tree
import LetPoly.Proofs.Unification.Mgu
import LetPoly.Proofs.Kind.Curried
import LetPoly.Proofs.Ty.Curried
import LetPoly.Proofs.Unification.MostGeneral
import LetPoly.Proofs.Ty.Names
import LetPoly.Proofs.Ty.Poly
import LetPoly.Proofs.Scope
import LetPoly.Proofs.Typing.Declarative
import LetPoly.Proofs.Ty.Issued
import LetPoly.Proofs.Unification.Store
import LetPoly.Proofs.Typing.State
import LetPoly.Proofs.Typing.Actions
import LetPoly.Proofs.Typing.Sound
import LetPoly.Proofs.Typing.Constructors
import LetPoly.Proofs.Typing.SoundDecls
import LetPoly.Proofs.Typing.Program
import LetPoly.Proofs.Typing.Admissible
import LetPoly.Proofs.Typing.Advance
import LetPoly.Proofs.Typing.Complete
import LetPoly.Proofs.Typing.CompleteDecls
import LetPoly.Proofs.Typing.Principal
import LetPoly.Proofs.Kind.Substitution
import LetPoly.Proofs.Kinding.Declarative
import LetPoly.Proofs.Kinding.Walk
import LetPoly.Proofs.Ty.Schemes
import LetPoly.Proofs.Kinding.Rules
import LetPoly.Proofs.Kinding.Groups
import LetPoly.Proofs.Kinding.Places
import LetPoly.Proofs.Kinding.Principal
import LetPoly.Proofs.Typing.Trace
import LetPoly.Proofs.Typing.Traced
import LetPoly.Proofs.Ty.Free
import LetPoly.Proofs.Ty.Slots
import LetPoly.Proofs.Typing.Stale
import LetPoly.Proofs.Ty.Exact
import LetPoly.Proofs.Typing.Sealed
import LetPoly.Proofs.Typing.TopLevel
import LetPoly.Proofs.Typing.Reported
import LetPoly.Proofs.Kind.Arguments
import LetPoly.Proofs.Kinding.Substitution
import LetPoly.Proofs.Kinding.Solving
import LetPoly.Proofs.Kinding.Closing
import LetPoly.Proofs.Typing.Kinded
import LetPoly.Proofs.Kinding.Again
import LetPoly.Proofs.Kinding.Checked
import LetPoly.Proofs.Typing.WellKinded
import LetPoly.Proofs.Typing.Film
import LetPoly.Proofs.Typing.Handles
import LetPoly.Proofs.Typing.Commands
import LetPoly.Proofs.Alike
import LetPoly.Proofs.Typing.Agreement
import LetPoly.Proofs.Typing.Ready
import LetPoly.Proofs.Typing.Driver
import LetPoly.Proofs.Typing.Later
import LetPoly.Proofs.Typing.Again
import LetPoly.Proofs.Kinding.Rename
import LetPoly.Proofs.Ty.Alpha
import LetPoly.Proofs.Ty.Respelling
import LetPoly.Proofs.Typing.Respelled
import LetPoly.Proofs.Typing.RespelledDecls
import LetPoly.Proofs.Typing.Spelling
import LetPoly.Proofs.Unification.Loop
import LetPoly.Proofs.Unification.Acts
import LetPoly.Proofs.Unification.Blame
import LetPoly.Proofs.Unification.Order
import LetPoly.Proofs.Kinding.Order
import LetPoly.Proofs.Kinding.Recording
import LetPoly.Proofs.Kinding.Recorded
import LetPoly.Proofs.Ty.Canonical
import LetPoly.Proofs.Typing.Parameters
import LetPoly.Proofs.Kind.Built
import LetPoly.Proofs.Ty.Quantification
import LetPoly.Proofs.Ty.RoundTrip
import LetPoly.Proofs.Kinding.Collected
import LetPoly.Proofs.Kinding.Conflicts
import LetPoly.Proofs.Kind.Text
import LetPoly.Proofs.Ty.Defaults
import LetPoly.Proofs.Ty.Splitting
import LetPoly.Proofs.Typing.Defaults
import LetPoly.Proofs.Typing.Released
