import CodeHealth.EditDistance

/-!
# The rows of an edit distance

Each row holds the distances of a prefix of one text to the prefixes of the other.  Read from their
ends, prefixes are what the recursion for the distance goes through, so the last entry of the last
row is the distance; and the recursion treats both texts alike.
-/

namespace CodeHealth.EditDistance

/-- The edit distance by recursion: the first character of one text is deleted, or that of the
other inserted, or one takes the place of the other, whichever costs least. -/
def distance : Text → Text → Nat
  | [], b => b.length
  | _ :: a, [] => a.length + 1
  | c :: a, d :: b =>
    min (min (distance a (d :: b) + 1) (distance (c :: a) b + 1))
      (distance a b + if c = d then 0 else 1)
termination_by a b => a.length + b.length

@[simp] theorem distance_nil (a : Text) : distance a [] = a.length := by
  cases a <;> simp [distance]

@[simp] theorem nil_distance (b : Text) : distance [] b = b.length := by
  rw [distance]

theorem distance_cons_cons (c d : Char) (a b : Text) :
    distance (c :: a) (d :: b) =
      min (min (distance a (d :: b) + 1) (distance (c :: a) b + 1))
        (distance a b + if c = d then 0 else 1) := by
  rw [distance]

/-- Deleting in one direction is inserting in the other. -/
theorem distance_comm (a b : Text) : distance a b = distance b a := by
  fun_induction distance a b with
  | case1 b => rw [distance_nil]
  | case2 c a => rw [nil_distance, List.length_cons]
  | case3 c a d b ihdelete ihinsert ihreplace =>
    rw [distance_cons_cons, ihdelete, ihinsert, ihreplace, Nat.min_comm (distance (d :: b) a + 1)]
    simp only [eq_comm]

/-! ## Rows -/

/-- The distances of a text to another one and to its extensions by more and more of what follows,
the texts read from their ends. -/
def row (p q : Text) : Text → List Nat
  | [] => [distance p q]
  | d :: rest => distance p q :: row p (d :: q) rest

theorem row_eq_cons (p q rest : Text) : row p q rest = distance p q :: (row p q rest).tail := by
  cases rest <;> rfl

theorem extendRow_row (c : Char) (p q rest : Text) :
    extendRow c (distance (c :: p) q) rest (row p q rest) = (row (c :: p) q rest).tail := by
  induction rest generalizing q with
  | nil => rfl
  | cons d rest ih =>
    have hentry : min (min (distance p (d :: q) + 1) (distance (c :: p) q + 1))
        (distance p q + if c = d then 0 else 1) = distance (c :: p) (d :: q) :=
      (distance_cons_cons c d p q).symm
    rw [row, row_eq_cons p (d :: q), extendRow, hentry, ← row_eq_cons p (d :: q), ih, row,
      List.tail_cons, ← row_eq_cons]

/-- The next row is the row of the longer prefix. -/
theorem nextRow_row (c : Char) (p b : Text) : nextRow b (row p [] b) c = row (c :: p) [] b := by
  have hfirst : (row p [] b).headD 0 + 1 = distance (c :: p) [] := by
    rw [row_eq_cons, List.headD_cons, distance_nil, distance_nil, List.length_cons]
  rw [nextRow, hfirst, extendRow_row, ← row_eq_cons]

theorem row_nil (q rest : Text) : row [] q rest = List.range' q.length (rest.length + 1) := by
  induction rest generalizing q with
  | nil => simp [row]
  | cons d rest ih =>
    rw [row, ih, nil_distance, List.length_cons, List.length_cons, ← List.range'_succ]

theorem firstRow_eq (b : Text) : firstRow b = row [] [] b := by
  rw [firstRow, row_nil, List.range_eq_range', List.length_nil]

/-- The rows of the prefixes, one after the other. -/
theorem foldl_nextRow (b p a : Text) :
    a.foldl (nextRow b) (row p [] b) = row (a.reverse ++ p) [] b := by
  induction a generalizing p with
  | nil => rfl
  | cons c a ih =>
    rw [List.foldl_cons, nextRow_row, ih, List.reverse_cons, List.append_assoc,
      List.singleton_append]

theorem getLast?_row (p q rest : Text) :
    (row p q rest).getLast? = some (distance p (rest.reverse ++ q)) := by
  induction rest generalizing q with
  | nil => rfl
  | cons d rest ih =>
    rw [row, List.getLast?_cons, ih, List.reverse_cons, List.append_assoc, List.singleton_append]
    rfl

end CodeHealth.EditDistance

namespace CodeHealth

theorem editDistance_eq_distance (a b : Text) :
    editDistance a b = EditDistance.distance a.reverse b.reverse := by
  rw [editDistance, EditDistance.firstRow_eq, EditDistance.foldl_nextRow,
    List.getLastD_eq_getLast?, EditDistance.getLast?_row]
  simp

/-- It does not matter which text is turned into which. -/
theorem editDistance_comm (a b : Text) : editDistance a b = editDistance b a := by
  rw [editDistance_eq_distance, editDistance_eq_distance, EditDistance.distance_comm]

end CodeHealth
