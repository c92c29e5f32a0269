import Dialect.Text.Basic

/-!
# Sets of characters

A set of characters is a list of ranges of code points. The operations keep the ranges in increasing
order and apart from each other, so the number of ranges says how scattered a set is.
-/

namespace Dialect

/-- The characters in some ranges of code points, both ends included. -/
structure CharSet where
  ranges : List (Nat × Nat)
  deriving DecidableEq, Repr

namespace CharSet

def contains (set : CharSet) (c : Char) : Bool :=
  set.ranges.any fun (first, last) => first ≤ c.toNat && c.toNat ≤ last

def single (c : Char) : CharSet where
  ranges := [(c.toNat, c.toNat)]

def between (first last : Char) : CharSet where
  ranges := [(first.toNat, last.toNat)]

@[simp]
theorem contains_single (c d : Char) : (single c).contains d = decide (d = c) := by
  have same : c.toNat = d.toNat ↔ d = c := by
    rw [Char.toNat_inj]
    exact eq_comm
  simp only [contains, single, List.any_cons, List.any_nil, Bool.or_false]
  rw [← Bool.decide_and, decide_eq_decide, ← same]
  omega

/-- Adds a range. Ranges that overlap it or lie right beside it are joined with it. -/
def insertRange (range : Nat × Nat) : List (Nat × Nat) → List (Nat × Nat)
  | [] => [range]
  | next :: others =>
      if range.2 + 1 < next.1 then range :: next :: others
      else if next.2 + 1 < range.1 then next :: insertRange range others
      else insertRange (min range.1 next.1, max range.2 next.2) others

def union (set other : CharSet) : CharSet where
  ranges := other.ranges.foldl (fun ranges range => insertRange range ranges) set.ranges

def unions (sets : List CharSet) : CharSet := sets.foldl union { ranges := [] }

def lastCodePoint : Nat := 0x10FFFF

/-- The gaps between ranges from a code point on. -/
def gapsFrom (start : Nat) : List (Nat × Nat) → List (Nat × Nat)
  | [] => if start ≤ lastCodePoint then [(start, lastCodePoint)] else []
  | (first, last) :: others =>
      if start < first then (start, first - 1) :: gapsFrom (last + 1) others
      else gapsFrom (last + 1) others

def complement (set : CharSet) : CharSet where
  ranges := gapsFrom 0 set.ranges

/-- The letters of a range in the other case, given the first letter of one case and of the other. -/
def recase (first other : Char) (range : Nat × Nat) : List (Nat × Nat) :=
  let low := max range.1 first.toNat
  let high := min range.2 (first.toNat + 25)
  if low ≤ high then [(low - first.toNat + other.toNat, high - first.toNat + other.toNat)] else []

/-- A set with the ASCII letters of either case for those that are in it. -/
def foldCase (set : CharSet) : CharSet :=
  set.union { ranges := set.ranges.flatMap fun range => recase 'A' 'a' range ++ recase 'a' 'A' range }

/-! ## ASCII classes -/

def digits : CharSet := between '0' '9'

/-- Tab, line feed, vertical tab, form feed, carriage return and space. -/
def spaces : CharSet := union (between '\t' '\r') (single ' ')

def wordChars : CharSet :=
  unions [between '0' '9', between 'A' 'Z', single '_', between 'a' 'z']

def notLineFeed : CharSet := (single '\n').complement

def everything : CharSet where
  ranges := [(0, lastCodePoint)]

def lower : CharSet := between 'a' 'z'

def upper : CharSet := between 'A' 'Z'

def letters : CharSet := upper.union lower

/-- The sets that go by a name between brackets and colons. -/
def named? (name : Text) : Option CharSet :=
  [ ("alnum", letters.union digits),
    ("alpha", letters),
    ("ascii", between '\x00' '\x7f'),
    ("blank", union (single '\t') (single ' ')),
    ("cntrl", union (between '\x00' '\x1f') (single '\x7f')),
    ("digit", digits),
    ("graph", between '!' '~'),
    ("lower", lower),
    ("print", between ' ' '~'),
    ("punct", unions [between '!' '/', between ':' '@', between '[' '\x60', between '\x7b' '~']),
    ("space", spaces),
    ("upper", upper),
    ("word", wordChars),
    ("xdigit", unions [digits, between 'A' 'F', between 'a' 'f'])
  ].findSome? fun (known, set) => if name = known.toList then some set else none

end CharSet

end Dialect
