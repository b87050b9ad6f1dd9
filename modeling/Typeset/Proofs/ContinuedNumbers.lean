import Typeset.Proofs.Code.Listings
import Typeset.Proofs.LineNumbers

/-!
# Continued numbers

Blocks are numbered one after the other when trees are indexed, and each block prints its lines when
it is its turn. What has been counted up to a block is then the last number that is printed before
it, since the lines that are counted are the lines that are printed.
-/

namespace Typeset

open Action Context Render Text

/-! ## Counting on -/

namespace CodeEntry

end CodeEntry

/-! ## Several trees -/

namespace CodeBlock

end CodeBlock

end Typeset
