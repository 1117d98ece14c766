/-!
# Names bound to things

A finite map from names, in the order in which the names were first bound.
-/

set_option autoImplicit false

namespace Lox

/-- Names and what they are bound to. -/
structure Bindings (α : Type) where
  entries : List (String × α)

namespace Bindings

variable {α : Type}

/-- No names. -/
def empty : Bindings α := ⟨[]⟩

/-- What a name is bound to. -/
def find? (b : Bindings α) (name : String) : Option α :=
  b.entries.lookup name

/-- Whether a name is bound. -/
def binds (b : Bindings α) (name : String) : Bool :=
  (b.find? name).isSome

/-- The entries with `name` bound to `value`, in its place if it has one. -/
def put (name : String) (value : α) : List (String × α) → List (String × α)
  | [] => [(name, value)]
  | (key, old) :: rest =>
    if name == key then (key, value) :: rest else (key, old) :: put name value rest

/-- Binds a name, in place of an earlier binding. -/
def set (b : Bindings α) (name : String) (value : α) : Bindings α :=
  ⟨put name value b.entries⟩

/-- The names that are bound. -/
def names (b : Bindings α) : List String :=
  b.entries.map Prod.fst

/-- Only the name that was put is looked up differently. -/
theorem lookup_put (name key : String) (value : α) (entries : List (String × α)) :
    (put name value entries).lookup key
      = if key == name then some value else entries.lookup key := by
  induction entries with
  | nil =>
    rw [put, List.lookup_cons, List.lookup_nil]
    cases key == name <;> rfl
  | cons entry rest ih =>
    obtain ⟨k, old⟩ := entry
    rw [put]
    split
    · next same =>
      have : name = k := by simpa using same
      subst this
      rw [List.lookup_cons, List.lookup_cons]
      cases key == name <;> rfl
    · next different =>
      rw [List.lookup_cons, List.lookup_cons, ih]
      by_cases found : key == k
      · have : key = k := by simpa using found
        subst this
        have : (key == name) = false := by
          rw [beq_eq_false_iff_ne]
          intro e
          exact different (by rw [e]; exact beq_self_eq_true _)
        simp [this]
      · simp [found]

/-- A name that was just bound is found, and all others are bound as before. -/
@[simp]
theorem find?_set (b : Bindings α) (name key : String) (value : α) :
    (b.set name value).find? key = if key == name then some value else b.find? key :=
  lookup_put name key value b.entries

@[simp]
theorem find?_empty (key : String) : (empty : Bindings α).find? key = none := rfl

end Bindings

end Lox
