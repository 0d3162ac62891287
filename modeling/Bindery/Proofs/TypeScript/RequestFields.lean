import Bindery.Proofs.Json.Quoting
import Bindery.Proofs.Synopsis.Acceptance
import Bindery.Proofs.TypeScript.Embedding
import Bindery.TypeScript.ClientFile

/-!
# The type of a command's parameters

Two places of the generated code speak of the parameters of a command: the interface in its file has
one field for each, and the method of the client may be called without them if none is required. Both
follow the descriptor, and so they agree.
-/

namespace Bindery.TypeScript
set_option autoImplicit false

open Code (Fragment Indent commentLines)
open Text (closeBrace ended ended_append ended_cons openBrace)

/-! ## Keys -/

namespace CommandFile

end CommandFile

/-! ## Parts of files -/

end Bindery.TypeScript
