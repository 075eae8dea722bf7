import RecordLambda.Static.TypeMap
import RecordLambda.Dynamic.Sharing
import RecordLambda.Meta.Check
import RecordLambda.Gen.Term
import RecordLambda.Pass.Define
import RecordLambda.Program
import RecordLambda.Proofs.Dynamic.Subst
import RecordLambda.Proofs.Dynamic.PlainSubst
import RecordLambda.Proofs.Dynamic.Nameless
import RecordLambda.Proofs.Static.Typed
import RecordLambda.Proofs.Dynamic.Run
import RecordLambda.Proofs.Dynamic.SR
import RecordLambda.Proofs.Dynamic.Progress
import RecordLambda.Proofs.Dynamic.Normalization
import RecordLambda.Proofs.Dynamic.Fuel
import RecordLambda.Proofs.Dynamic.Alpha
import RecordLambda.Proofs.Dynamic.Scope
import RecordLambda.Proofs.Dynamic.Determinism
import RecordLambda.Proofs.Static.Concrete
import RecordLambda.Proofs.Dynamic.BigStep
import RecordLambda.Proofs.Meta.Check
import RecordLambda.Proofs.Gen.Source
import RecordLambda.Proofs.Gen.Ty
import RecordLambda.Proofs.Gen.Typed
import RecordLambda.Proofs.Pass.Define
import RecordLambda.Proofs.Pass.Memo
import RecordLambda.Proofs.Pass.Inherit
import RecordLambda.Proofs.Syntax.Pretty
import RecordLambda.Proofs.Pass.Transparent
import RecordLambda.Proofs.Pass.WellFormed
import RecordLambda.Proofs.Pass.FreeVars
import RecordLambda.Proofs.Pass.Pretty
import RecordLambda.Proofs.Pass.Subst
import RecordLambda.Proofs.Static.Blame
import RecordLambda.Proofs.Static.Canonical
import RecordLambda.Proofs.Static.TypeMap
import RecordLambda.Proofs.Dynamic.Sharing
import RecordLambda.Proofs.Static.WellFormed
import RecordLambda.Proofs.Gen.Value
import RecordLambda.Proofs.Dynamic.Termination
import RecordLambda.Proofs.Syntax.Canonical
import RecordLambda.Proofs.Gen.Inhabited
import RecordLambda.Proofs.Syntax.Record
import RecordLambda.Proofs.Gen.Draws
import RecordLambda.Proofs.Gen.Termination
