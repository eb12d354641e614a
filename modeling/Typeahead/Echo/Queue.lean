/-!
# The echo queue

What was shown ahead of the remote side and is not confirmed yet, oldest first.  `toList` is the
whole view of a queue: each operation is described by what it does to that list.
-/

namespace Typeahead

/-- Entries in the order in which they were recorded. -/
structure EchoQueue (α : Type) where
  toList : List α
deriving Repr, DecidableEq

namespace EchoQueue

variable {α : Type}

def empty : EchoQueue α := ⟨[]⟩

def record (q : EchoQueue α) (a : α) : EchoQueue α := ⟨q.toList ++ [a]⟩

def pop? (q : EchoQueue α) : Option (α × EchoQueue α) :=
  match q.toList with
  | [] => none
  | a :: rest => some (a, ⟨rest⟩)

/-- The oldest `n` entries, or all if there are fewer. -/
def front (q : EchoQueue α) (n : Nat) : List α := q.toList.take n

def dropFront (q : EchoQueue α) (n : Nat) : EchoQueue α := ⟨q.toList.drop n⟩

def isEmpty (q : EchoQueue α) : Bool := q.toList.isEmpty

def size (q : EchoQueue α) : Nat := q.toList.length

end EchoQueue

end Typeahead
