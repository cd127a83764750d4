import DocModel.Path
import DocModel.Value.Basic

/-!
# Source documents

A document and where it came from: the index of its root among the roots, and its path. Provenance only
orders documents; it is no part of the model.
-/

namespace DocModel

/-- Where a document came from. -/
structure Provenance where
  rootIndex : Nat
  path : SourcePath
  deriving DecidableEq, Repr

namespace Provenance

/-- Earlier roots first, then paths in their order. -/
def before (a b : Provenance) : Bool :=
  a.rootIndex < b.rootIndex || (a.rootIndex = b.rootIndex && a.path.before b.path)

end Provenance

structure Document where
  provenance : Provenance
  value : Value
  deriving DecidableEq

namespace Document

/-- Documents in the order of their provenance; equal ones stay in the order of the list. -/
def sorted (documents : List Document) : List Document :=
  documents.mergeSort fun a b => !b.provenance.before a.provenance

end Document

end DocModel
