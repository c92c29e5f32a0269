import Dialect.Text.Basic

/-!
# Open blocks

The labels of the blocks that are open, innermost first. Only blocks opened by a keyword have a
label.
-/

namespace Dialect

/-- The labels of the open blocks, innermost first. -/
structure Blocks where
  labels : List Text
  deriving DecidableEq, Repr

namespace Blocks

def empty : Blocks where
  labels := []

/-- The blocks with the given labels, outermost first. -/
def ofOutermost (labels : List Text) : Blocks where
  labels := labels.reverse

def push (blocks : Blocks) (label : Text) : Blocks where
  labels := label :: blocks.labels

def pop (blocks : Blocks) : Blocks where
  labels := blocks.labels.tail

def top? (blocks : Blocks) : Option Text := blocks.labels.head?

def depth (blocks : Blocks) : Nat := blocks.labels.length

def isEmpty (blocks : Blocks) : Bool := blocks.labels.isEmpty

end Blocks

end Dialect
