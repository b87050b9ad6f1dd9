import Typeset.Code.FormatFault
import Typeset.Mismatch
import Typeset.Origin

/-!
# Failures

Every way in which reading, indexing or rendering a tree can fail, as a cause; `Failure.message`
holds the wording.
-/

namespace Typeset

/-- Why an operation gave no result. -/
inductive Failure where
  /-- The text is no JSON value. -/
  | malformedJson
  /-- A serialized node does not name its kind. -/
  | untypedNode
  /-- No kind of node has this name. -/
  | unknownKind (name : Json)
  /-- No zone has this name. -/
  | unknownZone (name : Json)
  /-- A mapping lacks an entry that is needed. -/
  | missingKey (key : String)
  /-- A mapping has no entry under a value, which need not be a text. -/
  | missingEntry (key : Datum)
  /-- An item, counted from zero, stands for an entry of a mapping but is no pair. -/
  | entryLength (index length : Nat)
  /-- A value stands for a pair but has another number of items. -/
  | notTwo (length : Nat)
  /-- A value is of a type that an operation has no use for. -/
  | mismatch (m : Mismatch)
  /-- A serialized node lacks fields that its kind requires. -/
  | missingFields (kind : String) (fields : List String)
  /-- A document was expected. -/
  | notDocument (kind : String)
  /-- An edit removed the root or put another kind of node in its place. -/
  | rootRemoved
  /-- No option of the configuration has this name. -/
  | unknownOption (name : String)
  /-- Nodes of this kind are never printed. -/
  | unprintableKind (kind : String) (origin : Origin)
  /-- A table row stands outside of a table. -/
  | strayRow (origin : Origin)
  /-- A table cell stands outside of a table row. -/
  | strayCell (origin : Origin)
  /-- A table cell is not among the cells of the row around it. -/
  | unlistedCell
  /-- A link or a footnote label resolves to nothing. -/
  | unresolvedLink (kind : String) (path : Datum) (origin : Option Origin)
  /-- A code label stands on no line. -/
  | unresolvedCode (label : Datum) (origin : Option Origin)
  /-- Quotes do not balance; the position counts characters. -/
  | unbalancedQuotes (text : String) (position : Nat)
  /-- The configuration has no template of this name. -/
  | missingTemplate (name : Datum)
  /-- The zone has no buffer. -/
  | unbufferedZone (zone : Zone)
  /-- A reserved slot lies beyond the buffer. -/
  | slotOutOfRange
  /-- There is no sectioning command for the level, in a sequence of the type that is named. -/
  | levelOutOfRange (sequence : String)
  /-- No ancestor is left to take. -/
  | noAncestor
  /-- A label format gives no marker. -/
  | labelFormat (f : FormatFault)
deriving DecidableEq, Repr

namespace Failure

/-- Field names as messages list them. -/
def listed : List String → String
  | [] => ""
  | [name] => Text.quoted name
  | name :: rest => Text.quoted name ++ " and " ++ listed rest

/-- What stands in front of a message about an optional origin. -/
def leadOf (origin : Option Origin) : String := (origin.map Origin.lead).getD ""

/-- The wording of a failure. -/
def message : Failure → String
  | .malformedJson => "Malformed JSON"
  | .untypedNode => "Missing '_type' field in serialized node"
  | .unknownKind name => "Unknown node type: " ++ name.shown
  | .unknownZone name => name.shown ++ " is not a valid Zone"
  | .missingKey key => Text.quoted key
  | .missingEntry key => key.shown
  | .entryLength index length =>
    "dictionary update sequence element #" ++ toString index ++ " has length " ++
      toString length ++ "; 2 is required"
  | .notTwo length =>
    if length < 2 then
      "not enough values to unpack (expected 2, got " ++ toString length ++ ")"
    else "too many values to unpack (expected 2)"
  | .mismatch m => m.message
  | .missingFields kind fields =>
    kind ++ ".__init__() missing " ++ toString fields.length ++ " required positional argument" ++
      (if fields.length = 1 then "" else "s") ++ ": " ++ listed fields
  | .notDocument kind => "Expected Document, got " ++ kind
  | .rootRemoved => "transform fn must return a Document for the root (cannot remove root)"
  | .unknownOption name =>
    "LatexConfig.__init__() got an unexpected keyword argument " ++ "'" ++ name ++ "'"
  | .unprintableKind kind origin => origin.lead ++ "No transcoder for node kind " ++ kind
  | .strayRow origin => origin.lead ++ "Table row outside of a table"
  | .strayCell origin => origin.lead ++ "Table cell outside of a table row"
  | .unlistedCell => ""
  | .unresolvedLink kind path origin =>
    leadOf origin ++ "Unable to resolve " ++ kind ++ " link: " ++ path.shown
  | .unresolvedCode label origin =>
    leadOf origin ++ "Unable to resolve code reference: " ++ label.shown
  | .unbalancedQuotes text position =>
    "Unbalanced quotes at offset " ++ toString position ++ " in " ++ Text.quoted text
  | .missingTemplate name => "No template named " ++ name.shown
  | .unbufferedZone zone => "<Zone." ++ zone.token ++ ": " ++ Text.quoted zone.name ++ ">"
  | .slotOutOfRange => "list assignment index out of range"
  | .levelOutOfRange sequence => sequence ++ " index out of range"
  | .noAncestor => "pop from empty list"
  | .labelFormat f => f.message

/-- The origin that the message of a failure begins with. -/
def origin? : Failure → Option Origin
  | .unprintableKind _ origin | .strayRow origin | .strayCell origin => some origin
  | .unresolvedLink _ _ origin | .unresolvedCode _ origin => origin
  | _ => none

/-- The failure that a failure ends in. Where the number of a line is no number, it cannot be told
whether the line is known, and that is what counts. -/
def settled (f : Failure) : Failure :=
  match f.origin?.bind Origin.lineFault? with
  | some type => .mismatch (.notComparable type "int")
  | none => f

end Failure

end Typeset
