import Relength.Options.Describe
import Relength.Options.Read
import Relength.Proofs.BlockBody
import Relength.Proofs.CarryOut
import Relength.Proofs.Cloning
import Relength.Proofs.Importance
import Relength.Proofs.InPlace
import Relength.Proofs.LastValue
import Relength.Proofs.Merging
import Relength.Proofs.OptionMembers
import Relength.Proofs.Progress
import Relength.Proofs.PropertyPatterns
import Relength.Proofs.Reconversion
import Relength.Proofs.Rounding
import Relength.Proofs.Settled
import Relength.Proofs.Signs
import Relength.Proofs.Stored
import Relength.Proofs.Writing
import Relength.Run.Survey
import Relength.Sheet.Address
