/-!
Tables from names to values, in ascending order of the names.

Names compare by code points, so a listing of the table needs no further sorting.
-/
namespace Abacus

abbrev Table (α : Type) := List (String × α)

namespace Table

def find? {α : Type} (name : String) : Table α → Option α
  | [] => none
  | (n, a) :: rest => if n = name then some a else find? name rest

/-- Adds an entry, or replaces the one of the same name. -/
def put {α : Type} (name : String) (a : α) : Table α → Table α
  | [] => [(name, a)]
  | (n, b) :: rest =>
    if n = name then (name, a) :: rest
    else if name < n then (name, a) :: (n, b) :: rest
    else (n, b) :: put name a rest

/-- The table of some entries; of two with the same name the later one counts. -/
def ofEntries {α : Type} (entries : List (String × α)) : Table α :=
  entries.foldl (fun t (n, a) => t.put n a) []

@[simp]
theorem find?_put_self {α : Type} (name : String) (a : α) (t : Table α) :
    (t.put name a).find? name = some a := by
  induction t with
  | nil => simp [put, find?]
  | cons e rest ih =>
    unfold put
    split
    · simp [find?]
    · split
      · simp [find?]
      · simp_all [find?]

theorem find?_put_of_ne {α : Type} {name other : String} (h : other ≠ name) (a : α) (t : Table α) :
    (t.put name a).find? other = t.find? other := by
  induction t with
  | nil => simp [put, find?, h.symm]
  | cons e rest ih =>
    unfold put
    split
    · rename_i hn
      simp [find?, h.symm, hn]
    · split
      · simp [find?, h.symm]
      · simp [find?, ih]

end Table

end Abacus
