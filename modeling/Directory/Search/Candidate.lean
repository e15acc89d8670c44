import Directory.Store

/-!
# Candidates

A candidate of a search is the id of an entry with what has been learned about it: the key that
made it match, and the entry itself once it has been looked up.
-/

namespace Directory

/-- The id of an entry and what a search has learned about it. -/
structure Candidate where
  id : EntryId
  key : Option NormalValue := none
  entry : Option Entry := none
  deriving DecidableEq, Repr, Inhabited

namespace Candidate

/-- A candidate known by its id only. -/
def new (id : EntryId) : Candidate := { id }

/-- A candidate whose entry is at hand. -/
def ofEntry (e : Entry) : Candidate := { id := e.id, entry := some e }

/-- Note the key that made the candidate match, if there is one. -/
def record (c : Candidate) (key : Option NormalValue) : Candidate :=
  { c with key := key.or c.key }

/-- The entry, looked up in the store on first use; none if it is not there. -/
def resolve (c : Candidate) (s : Store) : Option Entry × Candidate :=
  match c.entry with
  | some e => (some e, c)
  | none =>
    match s.entry? c.id with
    | some e => (some e, { c with entry := some e })
    | none => (none, c)

end Candidate

end Directory
