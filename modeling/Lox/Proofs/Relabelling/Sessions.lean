import Lox.Proofs.Scoping.Sessions
import Lox.Proofs.Relabelling.Machines

/-!
# The ids in a session

All code that a session holds comes from the programs that it accepted, so its ids are among those
that were given out. That is what a mirror of the machine has to know.
-/

set_option autoImplicit false

namespace Lox

variable {uses : Use → Prop} {ids : NodeId → Prop} {sc : Scene}

/-! ## Code that is known -/

section

variable (inside : ∀ u, uses u → ids u.access.id)
include inside

theorem FunctionDecl.Known.within {f : FunctionDecl} {frame : Address}
    (known : f.Known uses sc frame) : f.Within ids := by
  obtain ⟨sites, r, context, -, used, -⟩ := known
  intro a member
  rw [← FunctionDecl.map_access_uses sites context f r] at member
  obtain ⟨u, found, rfl⟩ := List.mem_map.mp member
  exact inside u (used u found)

theorem FunctionDecl.KnownMethod.within {f : FunctionDecl} {frame : Address}
    (known : f.KnownMethod uses sc frame) : f.Within ids := by
  obtain ⟨sites, r, context, -, -, -, used, -⟩ := known
  intro a member
  rw [← FunctionDecl.map_access_uses (.receiver f :: sites) context f r] at member
  obtain ⟨u, found, rfl⟩ := List.mem_map.mp member
  exact inside u (used u found)

theorem Class.Known.within (c : Class) (known : c.Known uses sc) : c.Within ids := by
  have methods : ∀ f ∈ c.methods, f.Within ids :=
    fun f member => (known.methods f member).within inside
  match c, known, methods with
  | ⟨_, _, some above, _, _⟩, known, methods => exact ⟨methods, Class.Known.within above known.2⟩
  | ⟨_, _, none, _, _⟩, known, methods => exact ⟨methods, trivial⟩

theorem Value.Known.within {value : Value} (known : value.Known uses sc) : value.Within ids := by
  cases value with
  | closure f => exact FunctionDecl.Known.within inside known
  | «class» c => exact Class.Known.within inside c known
  | «instance» i => exact Class.Known.within inside i.of known
  | nil | bool | number | string | native => trivial

theorem Cell.Known.within {cell : Cell} (known : cell.Known uses sc) : cell.Within ids := by
  cases cell with
  | frame f => exact fun name value found => (known name value found).within inside
  | fields b => exact fun name value found => (known name value found).within inside
  | identity => trivial

end

/-! ## Sessions -/

/-- The heap of a session is within the ids that were given out. -/
theorem Consistent.within {programs : List Program} {total : Nat} {events : List Event}
    {session : Session} (consistent : Consistent True programs total events session) :
    session.machine.heap.Within (· < total) :=
  fun a cell found =>
    (consistent.sound.cells a cell found).within (consistent.below trivial)

/-- So are the statements of a program that is accepted next. -/
theorem Program.Accepted.within {program : Program} {lo hi : Nat}
    (accepted : program.Accepted lo hi) (few : hi ≤ Parser.idCount) :
    ∀ s ∈ program.statements, s.Within fun id => lo ≤ id ∧ id < hi :=
  Stmt.within_of_all fun a member => (accepted.declared.issued.ids few).2 a member

end Lox
