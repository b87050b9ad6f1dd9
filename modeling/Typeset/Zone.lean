/-! # Zones: the regions of a document -/

namespace Typeset

/-- A region a heading can stand in. All but the body are collected apart. -/
inductive Zone where
  | body
  | frontmatter
  | backmatter
  | appendix
  | copying
  | index
deriving DecidableEq, Repr

namespace Zone

/-- All zones, in the order of their declaration. -/
def all : List Zone := [.body, .frontmatter, .backmatter, .appendix, .copying, .index]

/-- The name of a zone in a serialized tree. -/
def name : Zone → String
  | .body => "body"
  | .frontmatter => "frontmatter"
  | .backmatter => "backmatter"
  | .appendix => "appendix"
  | .copying => "copying"
  | .index => "index"

/-- The zone of a name. -/
def ofName? (name : String) : Option Zone := all.find? fun z ↦ z.name == name

/-- The name of a zone in a template. -/
def token : Zone → String
  | .body => "BODY"
  | .frontmatter => "FRONTMATTER"
  | .backmatter => "BACKMATTER"
  | .appendix => "APPENDIX"
  | .copying => "COPYING"
  | .index => "INDEX"

@[simp] theorem ofName?_name (z : Zone) : ofName? z.name = some z := by cases z <;> rfl

end Zone

end Typeset
