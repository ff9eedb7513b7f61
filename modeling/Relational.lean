import Relational.Answer.Shape
import Relational.Main
import Relational.Proofs.Goal.Renaming
import Relational.Proofs.Goal.Reordering
import Relational.Proofs.Goal.Stability
import Relational.Proofs.Goal.Walking
import Relational.Proofs.Relation.Concatenation
import Relational.Proofs.State.Solving
import Relational.Proofs.Stream.Beginning
import Relational.Proofs.Goal.Starting
import Relational.Proofs.Relation.Membership
import Relational.Proofs.Relation.Length
import Relational.Proofs.Relation.Reversal
import Relational.Proofs.Goal.Querying
import Relational.Proofs.Goal.Running
import Relational.Proofs.Arithmetic.Division
import Relational.Proofs.Relation.Numbers
import Relational.Proofs.Answer.Written
import Relational.Proofs.Term.Written
import Relational.Proofs.Stream.Sweeping
