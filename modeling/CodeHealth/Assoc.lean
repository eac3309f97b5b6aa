/-!
# Ordered dictionaries

A dictionary as a list of pairs in the order in which the keys first came. Writing to a key that is
there keeps its place.
-/

namespace CodeHealth.Assoc

variable {κ ν : Type} [BEq κ]

/-- Writes a value under a key. -/
def put (k : κ) (v : ν) : List (κ × ν) → List (κ × ν)
  | [] => [(k, v)]
  | (k', v') :: rest => if k' == k then (k', v) :: rest else (k', v') :: put k v rest

/-- The dictionary that writing the pairs in turn gives. -/
def ofList (pairs : List (κ × ν)) : List (κ × ν) :=
  pairs.foldl (fun d (k, v) => put k v d) []

def get? (k : κ) : List (κ × ν) → Option ν
  | [] => none
  | (k', v) :: rest => if k' == k then some v else get? k rest

def keys (d : List (κ × ν)) : List κ :=
  d.map Prod.fst

end CodeHealth.Assoc
