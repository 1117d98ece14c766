import Lox.Proofs.Growth
import Lox.Proofs.Operations

/-!
# What heaps hold

The values that a heap holds are those that its frames bind and those in the fields of its instances.
Whatever is true of all of them stays true as long as it is true of each value that is put there.
-/

set_option autoImplicit false

namespace Lox

/-- Whether all values in a cell have a property. -/
def Cell.All (P : Value → Prop) : Cell → Prop
  | .frame f => ∀ name value, f.bindings.find? name = some value → P value
  | .fields b => ∀ name value, b.find? name = some value → P value
  | .identity => True

/-- Whether all values in a heap have a property. -/
def Heap.All (P : Value → Prop) (h : Heap) : Prop :=
  ∀ (a : Address) (cell : Cell), h.cells[a]? = some cell → cell.All P

namespace Heap.All

variable {P Q : Value → Prop} {h : Heap}

theorem imp (all : h.All P) (le : ∀ value, P value → Q value) : h.All Q := by
  intro a cell found
  have here := all a cell found
  cases cell with
  | frame f => exact fun name value holds => le value (here name value holds)
  | fields b => exact fun name value holds => le value (here name value holds)
  | identity => trivial

theorem read? (all : h.All P) {a : Address} {name : String} {value : Value}
    (found : h.read? a name = some value) : P value := by
  obtain ⟨frame, here, holds⟩ := Option.bind_eq_some_iff.mp found
  exact all a _ (Heap.frame?_eq_some.mp here) name value holds

theorem getAt? (all : h.All P) {a : Address} {distance : Nat} {name : String} {value : Value}
    (found : h.getAt? a distance name = some value) : P value := by
  obtain ⟨frame, -, here⟩ := Option.bind_eq_some_iff.mp found
  exact all.read? here

theorem field? (all : h.All P) {i : Instance} {name : String} {value : Value}
    (found : h.field? i name = some value) : P value := by
  obtain ⟨fields, here, holds⟩ := Option.bind_eq_some_iff.mp found
  exact all i.id _ (Heap.fields?_eq_some.mp here) name value holds

theorem allocate (all : h.All P) {cell : Cell} (new : cell.All P) : (h.allocate cell).2.All P := by
  intro a found holds
  rw [Heap.cells_allocate] at holds
  split at holds
  · exact Option.some.inj holds ▸ new
  · exact all a found holds

theorem define (all : h.All P) (a : Address) (name : String) {value : Value} (new : P value) :
    (h.define a name value).All P := by
  intro b found holds
  rw [Heap.cells_define] at holds
  split at holds
  · obtain ⟨cell, here, rfl⟩ := Option.map_eq_some_iff.mp holds
    have before := all b cell here
    cases cell with
    | frame frame => exact Bindings.forall_set before new
    | fields fields => exact before
    | identity => trivial
  · exact all b found holds

theorem setField (all : h.All P) (i : Instance) (name : String) {value : Value} (new : P value) :
    (h.setField i name value).All P := by
  intro b found holds
  rw [Heap.cells_setField] at holds
  split at holds
  · obtain ⟨cell, here, rfl⟩ := Option.map_eq_some_iff.mp holds
    have before := all b cell here
    cases cell with
    | frame frame => exact before
    | fields fields => exact Bindings.forall_set before new
    | identity => trivial
  · exact all b found holds

theorem bindMethod (all : h.All P) (method : Method) {i : Instance} (receiver : P (.instance i)) :
    (h.bindMethod method i).2.All P := by
  have frame : (Cell.frame ⟨Bindings.empty.set "this" (.instance i), some method.frame⟩).All P :=
    Bindings.forall_single receiver
  exact (all.allocate frame).allocate trivial

end Heap.All

/-- At first the heap holds the clock alone. -/
theorem Machine.all_new {P : Value → Prop} (native : P (.native ⟨0, "clock", 0, .clock⟩))
    (policy : Sink.Policy) (maxDepth : Nat) (clock : Clock) :
    (new .empty policy maxDepth clock).heap.All P := by
  intro a cell found
  rcases a with _ | _ | a
  · obtain rfl : Cell.identity = cell := Option.some.inj found
    trivial
  · obtain rfl : Cell.frame ⟨Bindings.empty.set "clock" (.native ⟨0, "clock", 0, .clock⟩), none⟩
      = cell := Option.some.inj found
    exact Bindings.forall_single native
  · cases found

end Lox
