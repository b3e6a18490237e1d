/-!
Texts under keys, in ascending order of the keys, each key once.
-/
namespace FunctionPairs

abbrev Catalog := List (String × String)

namespace Catalog

def insert (key text : String) : Catalog → Catalog
  | [] => [(key, text)]
  | (k, t) :: rest =>
    if key < k then (key, text) :: (k, t) :: rest
    else if key = k then (key, text) :: rest
    else (k, t) :: insert key text rest

def get? (c : Catalog) (key : String) : Option String := c.lookup key

def contains (c : Catalog) (key : String) : Bool := (c.get? key).isSome

def keys (c : Catalog) : List String := c.map (·.1)

end Catalog
end FunctionPairs
