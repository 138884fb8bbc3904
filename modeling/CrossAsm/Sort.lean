/-!
Insertion sort. It is stable: what the order does not tell apart stays as it was.
-/

namespace CrossAsm

variable {α : Type}

def insertSorted (le : α → α → Bool) (a : α) : List α → List α
  | [] => [a]
  | b :: rest => if le a b then a :: b :: rest else b :: insertSorted le a rest

def stableSort (le : α → α → Bool) (l : List α) : List α := l.foldr (insertSorted le) []

end CrossAsm
