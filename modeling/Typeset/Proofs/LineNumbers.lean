import Typeset.Proofs.CodeLabels
import Typeset.Proofs.References

/-!
# Line numbers of the backends

Lines that are printed as they are have their numbers in front. The packages count by themselves
and are told by options to do so and from where, but for zero: a block that starts there is printed
as if it had no numbers.
-/

namespace Typeset

open Action Context Render Text

namespace Latex

end Latex

namespace CodeBackend

end CodeBackend

namespace Latex.Listing

end Latex.Listing

/-! ## Blocks that print -/

namespace Render

variable (config : Config) {o : Occurrence} {b : CodeBlock}

end Render

/-! ## The backends -/

end Typeset
