/-!
File names in their plain form: without empty parts and without parts that stay in place.
-/
namespace Abacus.Text

/-- The parts of a path between slashes. -/
def pathParts : List Char → List (List Char)
  | [] => [[]]
  | c :: cs =>
    match pathParts cs with
    | [] => [[c]]
    | part :: rest => if c = '/' then [] :: part :: rest else (c :: part) :: rest

/-- The slashes that a path starts with; exactly two are kept, more count as one. -/
def pathRoot (cs : List Char) : List Char :=
  match (cs.takeWhile (· == '/')).length with
  | 0 => []
  | 2 => ['/', '/']
  | _ => ['/']

def plainPath (path : String) : String :=
  let cs := path.toList
  let parts := (pathParts cs).filter fun p => !p.isEmpty && p != ['.']
  let text := pathRoot cs ++ ['/'].intercalate parts
  if text.isEmpty then "." else String.ofList text

end Abacus.Text
