import Reskin.Text.Basic

/-!
# Tables

Values by name, in the order in which the names were first put.

## Main definitions

* `Table`: the tables
* `Table.get?`, `Table.put`, `Table.ofList`: looking up and putting

## Main results

* `Table.get?_put_self`, `Table.get?_put_of_ne`: what a table holds after a put
* `Table.put_of_not_mem`: where a new name is put
-/

namespace Reskin

/-- Values by name, in the order of the first put. -/
abbrev Table (α : Type) := List (Text × α)

namespace Table

variable {α : Type}

/-- The value of a name. -/
def get? (t : Table α) (name : Text) : Option α := (t.find? (·.1 == name)).map (·.2)

/-- Whether the name has a value. -/
def has (t : Table α) (name : Text) : Bool := (t.get? name).isSome

/-- The names, in order. -/
def names (t : Table α) : List Text := t.map (·.1)

/-- The table with a value for the name: in the place of its old value, else at the end. -/
def put : Table α → Text → α → Table α
  | [], name, a => [(name, a)]
  | e :: t, name, a => if e.1 = name then (name, a) :: t else e :: put t name a

/-- The table that putting the values one after the other makes. -/
def ofList (es : List (Text × α)) : Table α := es.foldl (fun t e => put t e.1 e.2) []

theorem get?_put_self (t : Table α) (name : Text) (a : α) : (put t name a).get? name = some a := by
  induction t with
  | nil => simp [put, get?]
  | cons e t ih =>
    by_cases h : e.1 = name
    · simp [put, h, get?]
    · simpa [put, h, get?] using ih

theorem get?_put_of_ne (t : Table α) {name other : Text} (a : α) (h : other ≠ name) :
    (put t name a).get? other = t.get? other := by
  induction t with
  | nil => simp [put, get?, Ne.symm h]
  | cons e t ih =>
    by_cases he : e.1 = name
    · simp [put, he, get?, Ne.symm h]
    · by_cases ho : e.1 = other
      · simp [put, get?, ho, h]
      · simpa [put, he, get?, ho] using ih

/-- A name without a value is put at the end. -/
theorem put_of_not_mem {t : Table α} {name : Text} (h : name ∉ t.names) (a : α) :
    put t name a = t ++ [(name, a)] := by
  induction t with
  | nil => rfl
  | cons e t ih =>
    simp only [names, List.map_cons, List.mem_cons, not_or] at h
    rw [put, if_neg (Ne.symm h.1), ih h.2, List.cons_append]

end Table

end Reskin
