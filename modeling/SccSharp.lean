import SccSharp.Main
import SccSharp.Command.Run
import SccSharp.Proofs.Prediction
import SccSharp.Proofs.Rejection
import SccSharp.Proofs.Steps
import SccSharp.Proofs.Runs
import SccSharp.Proofs.Room
import SccSharp.Proofs.Language
import SccSharp.Proofs.ErrorChain
import SccSharp.Proofs.Outcome
import SccSharp.Proofs.Position
import SccSharp.Proofs.Cutting
import SccSharp.Proofs.Layout
import SccSharp.Proofs.Exchange
import SccSharp.Proofs.Laziness
import SccSharp.Proofs.Limits
import SccSharp.Proofs.Accounting
import SccSharp.Proofs.Expected
import SccSharp.Proofs.Faults
import SccSharp.Proofs.Kinds
import SccSharp.Proofs.LineOrder
import SccSharp.Proofs.Progress
import SccSharp.Proofs.Presentation
import SccSharp.Proofs.Statuses
import SccSharp.Proofs.StandardInput
import SccSharp.Proofs.LineEnds
import SccSharp.Proofs.Decoding
