/-!
# Cursors

A cursor hands out the members of a snapshot one by one. Later changes to what the snapshot was
taken of do not reach it, and once closed it has nothing more to give.
-/

namespace Directory

universe u

/-- A forward-only reader of a snapshot. -/
inductive Cursor (α : Type u) where
  /-- These members are still to come. -/
  | reading (rest : List α)
  /-- The snapshot is released. -/
  | closed
  deriving DecidableEq, Repr, Inhabited

namespace Cursor

variable {α : Type u}

/-- The next member, if there is one, and the cursor behind it. -/
def next : Cursor α → Option α × Cursor α
  | reading [] => (none, reading [])
  | reading (a :: rest) => (some a, reading rest)
  | closed => (none, closed)

/-- Release the snapshot. -/
def close (_ : Cursor α) : Cursor α := closed

/-- The snapshot is released. -/
def isClosed : Cursor α → Bool
  | reading _ => false
  | closed => true

@[simp] theorem next_nil : (reading [] : Cursor α).next = (none, reading []) := rfl
@[simp] theorem next_cons (a : α) (rest : List α) :
    (reading (a :: rest)).next = (some a, reading rest) := rfl
@[simp] theorem next_closed : (closed : Cursor α).next = (none, closed) := rfl

end Cursor

end Directory
