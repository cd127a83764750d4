import DocModel.Path
import DocModel.Value.Basic

/-!
# Claims on paths

A claim says which template and instance want to write a path, and whether a build directive or a template
asked for it. A collision is a path with the claims made on it.
-/

namespace DocModel

/-- Who asked for an output. -/
inductive Origin where
  | directive
  | emitted
  deriving DecidableEq, Repr

namespace Origin

def text : Origin → String
  | directive => "directive"
  | emitted => "emitted"

end Origin

structure Claim where
  template : String
  instanceId : String
  origin : Origin
  deriving DecidableEq, Repr

namespace Claim

def sameOwner (a b : Claim) : Bool := a.template = b.template && a.instanceId = b.instanceId

def toValue (c : Claim) : Value :=
  .ofFields [("template", .string c.template), ("instanceId", .string c.instanceId),
    ("origin", .string c.origin.text)]

end Claim

structure Collision where
  path : Path
  claims : List Claim
  deriving DecidableEq, Repr

namespace Collision

def message (c : Collision) : String :=
  c.path.text ++ " claimed by "
    ++ Text.join ", " (c.claims.map fun claim => claim.instanceId ++ " (" ++ claim.template ++ ")")

def toValue (c : Collision) : Value :=
  .ofFields [("path", .string c.path.text), ("claims", .list (c.claims.map Claim.toValue))]

end Collision

end DocModel
