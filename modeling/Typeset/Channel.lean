import Typeset.Text.Cut

/-! # Names of the channels that diagnostics go to -/

namespace Typeset

/-- The channel that all others stand below. -/
def rootChannel : String := "texloom"

/-- The full name of a channel: a name outside of the root channel is put below it. -/
def channelName (name : String) : String :=
  if name = rootChannel ∨ Text.beginsWith name (rootChannel ++ ".") then name
  else rootChannel ++ "." ++ name

end Typeset
