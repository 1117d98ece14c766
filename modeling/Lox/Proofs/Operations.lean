import Lox.Machine.Evaluate

/-!
# What the operations of the machine can do

One lemma for each operation that branches: its ways out, each with the condition under which it
is taken. Later arguments go by these ways and never open the operations.
-/

set_option autoImplicit false

namespace Lox

/-! ## What operators give -/

/-- Whether a value holds no code of a program. -/
def Value.IsData : Value → Prop
  | .nil | .bool _ | .number _ | .string _ | .native _ => True
  | .closure _ | .class _ | .instance _ => False

/-- Whether a value refers to nothing in the heap. -/
def Value.IsPlain : Value → Prop
  | .nil | .bool _ | .number _ | .string _ => True
  | .native _ | .closure _ | .class _ | .instance _ => False

theorem Value.IsPlain.isData {value : Value} (plain : value.IsPlain) : value.IsData := by
  cases value with
  | nil | bool | number | string => trivial
  | native | closure | «class» | «instance» => cases plain

theorem Value.isPlain_ofLiteral (literal : Literal) : (Value.ofLiteral literal).IsPlain := by
  cases literal <;> trivial

theorem UnaryOp.isPlain_apply {op : UnaryOp} {right value : Value}
    (ok : op.apply right = .ok value) : value.IsPlain := by
  unfold UnaryOp.apply at ok
  split at ok
  · exact Except.ok.inj ok ▸ trivial
  · exact Except.ok.inj ok ▸ trivial
  · cases ok

theorem BinaryOp.isPlain_applyNumbers {op : BinaryOp} {left right value : Value}
    {f : Float → Float → Value} (plain : ∀ x y, (f x y).IsPlain)
    (ok : op.applyNumbers left right f = .ok value) : value.IsPlain := by
  unfold BinaryOp.applyNumbers at ok
  split at ok
  · exact Except.ok.inj ok ▸ plain _ _
  · cases ok

theorem BinaryOp.isPlain_apply {op : BinaryOp} {left right value : Value}
    (ok : op.apply left right = .ok value) : value.IsPlain := by
  cases op with
  | add =>
    unfold BinaryOp.apply at ok
    dsimp only at ok
    split at ok
    · exact Except.ok.inj ok ▸ trivial
    · exact Except.ok.inj ok ▸ trivial
    · cases ok
  | equal | notEqual => exact Except.ok.inj ok ▸ trivial
  | subtract | multiply | divide | less | lessEqual | greater | greaterEqual =>
    refine isPlain_applyNumbers ?_ ok
    exact fun _ _ => trivial

/-- A function of the host gives back an argument or makes a value that refers to nothing. -/
theorem Native.plain_or_given {f : Native} {reading : Float} {arguments : List Value} {value : Value}
    (ok : f.call reading arguments = .ok value) : value.IsPlain ∨ value ∈ arguments := by
  unfold Native.call at ok
  split at ok
  · exact .inl (Except.ok.inj ok ▸ trivial)
  · obtain rfl := Except.ok.inj ok
    cases arguments with
    | nil => exact .inl trivial
    | cons argument _ => exact .inr List.mem_cons_self
  · exact .inl (Except.ok.inj ok ▸ trivial)
  · cases ok

theorem Value.isData_ofLiteral (literal : Literal) : (Value.ofLiteral literal).IsData :=
  (isPlain_ofLiteral literal).isData

theorem UnaryOp.isData_apply {op : UnaryOp} {right value : Value}
    (ok : op.apply right = .ok value) : value.IsData :=
  (isPlain_apply ok).isData

theorem BinaryOp.isData_apply {op : BinaryOp} {left right value : Value}
    (ok : op.apply left right = .ok value) : value.IsData :=
  (isPlain_apply ok).isData

/-- A function of the host gives back an argument or makes a value without code. -/
theorem Native.call_cases {f : Native} {reading : Float} {arguments : List Value} {value : Value}
    (ok : f.call reading arguments = .ok value) : value.IsData ∨ value ∈ arguments :=
  (plain_or_given ok).imp_left Value.IsPlain.isData

/-! ## Where methods come from -/

/-- A method that a class finds stands in the class or in one above it. What holds of a class and
is passed on upwards holds of that one. -/
theorem Class.method?_mem {P : Class → Prop}
    (up : ∀ c above, P c → c.parent = some above → P above) (c : Class) (holds : P c)
    {name : String} {method : Method} (found : c.method? name = some method) :
    ∃ owner, P owner ∧ method.declaration ∈ owner.methods ∧ method.frame = owner.frame := by
  match c, holds with
  | ⟨id, className, parent, frame, methods⟩, holds =>
    unfold Class.method? at found
    split at found
    · next declaration here =>
      obtain rfl := Option.some.inj found
      exact ⟨_, holds, List.mem_reverse.mp (List.mem_of_find?_eq_some here), rfl⟩
    · split at found
      · next above => exact method?_mem up above (up _ above holds rfl) found
      · cases found

/-! ## What is bound -/

namespace Bindings

variable {P : Value → Prop}

theorem forall_set {b : Bindings Value} {name : String} {value : Value}
    (before : ∀ key old, b.find? key = some old → P old) (new : P value) :
    ∀ key found, (b.set name value).find? key = some found → P found := by
  intro key found holds
  rw [find?_set] at holds
  split at holds
  · exact Option.some.inj holds ▸ new
  · exact before key found holds

/-- What holds of a value holds of all a frame with it alone binds. -/
theorem forall_single {name : String} {value : Value} (new : P value) :
    ∀ key found, (Bindings.empty.set name value).find? key = some found → P found :=
  forall_set (fun _ _ found => nomatch found) new

/-- The parameters of a call are bound to its arguments. -/
theorem forall_parameters (params : List Name) (arguments : List Value)
    (given : ∀ value ∈ arguments, P value) (bindings : Bindings Value)
    (before : ∀ key old, bindings.find? key = some old → P old) :
    ∀ key value, ((params.zip arguments).foldl (fun bindings (param, argument) =>
      bindings.set param.lexeme argument) bindings).find? key = some value → P value := by
  induction params generalizing arguments bindings with
  | nil => exact before
  | cons param params ih =>
    cases arguments with
    | nil => exact before
    | cons argument arguments =>
      exact ih arguments (fun value member => given value (List.mem_cons_of_mem _ member)) _
        (forall_set before (given argument List.mem_cons_self))

end Bindings

/-- A sink keeps its policy whatever it is offered. -/
theorem Sink.policy_write (sink : Sink) (text : String) :
    (sink.write text).2.policy = sink.policy := by
  unfold write
  split
  · rfl
  · cases sink.policy.refusesWrite sink.tally <;> rfl

namespace Eval

/-! ## What the steps of the machine can do -/

variable {α β : Type}

/-- A sequence goes on where its first part ends with a value, and stops where that stops. -/
theorem bind_eq (x : Eval α) (f : α → Eval β) (m : Machine) :
    (x >>= f) m =
      match x m with
      | .ok a m' => f a m'
      | .error stop m' => .error stop m' := by
  simp only [bind, EStateM.bind]
  cases x m <;> rfl

/-- A result with its machine changed. -/
def onMachine (change : Machine → Machine) :
    EStateM.Result Stop Machine α → EStateM.Result Stop Machine α
  | .ok a m => .ok a (change m)
  | .error stop m => .error stop (change m)

theorem inFrame_eq (frame : Address) (body : Eval α) (m : Machine) :
    inFrame frame body m
      = onMachine (fun m' => { m' with current := m.current }) (body { m with current := frame }) := by
  unfold inFrame
  cases body { m with current := frame } <;> rfl

/-- A call at the limit overflows, and nothing else happens. -/
theorem inCall_full (line : Nat) (body : Eval α) {m : Machine} (full : m.maxDepth ≤ m.depth) :
    inCall line body m = fail .stackOverflow line m := by
  unfold inCall
  rw [if_pos full]

theorem inCall_room (line : Nat) (body : Eval α) {m : Machine} (room : ¬m.maxDepth ≤ m.depth) :
    inCall line body m
      = onMachine (fun m' => { m' with depth := m.depth })
          (body { m with depth := m.depth + 1 }) := by
  unfold inCall
  rw [if_neg room]
  dsimp only
  cases body { m with depth := m.depth + 1 } <;> rfl

theorem lookUp_cases (id : NodeId) (name : String) (line : Nat) (m : Machine) :
    (∃ frame value, m.place? id name = some frame ∧ m.heap.read? frame name = some value ∧
      lookUp id name line m = .ok value m) ∨
    lookUp id name line m = fail (.undefinedVariable name) line m := by
  unfold lookUp Machine.lookUp?
  cases place : m.place? id name with
  | none => exact .inr rfl
  | some frame =>
    cases found : m.heap.read? frame name with
    | none =>
      right
      simp only [Option.bind_some, found]
      rfl
    | some value =>
      left
      exact ⟨frame, value, rfl, found, by simp only [Option.bind_some, found]⟩

theorem assign_cases (id : NodeId) (name : Name) (value : Value) (m : Machine) :
    (∃ frame, m.place? id name.lexeme = some frame ∧
      assign id name value m = .ok () { m with heap := m.heap.define frame name.lexeme value }) ∨
    (m.place? id name.lexeme = none ∧
      assign id name value m = fail (.undefinedVariable name.lexeme) name.line m) := by
  unfold assign
  cases m.place? id name.lexeme with
  | none => exact .inr ⟨rfl, rfl⟩
  | some frame => exact .inl ⟨frame, rfl, rfl⟩

/-- A property is a field, or else a method bound to the instance. -/
theorem property_cases (object : Value) (name : Name) (m : Machine) :
    (∃ i value, object = .instance i ∧ m.heap.field? i name.lexeme = some value ∧
      property object name m = .ok value m) ∨
    (∃ i, object = .instance i ∧ m.heap.field? i name.lexeme = none ∧
      property object name m = bound (i.of.method? name.lexeme) i name.lexeme name.line m) ∨
    property object name m = fail .readsPropertyOfNonInstance name.line m := by
  cases object with
  | «instance» i =>
    simp only [property]
    cases field : m.heap.field? i name.lexeme with
    | none => exact .inr (.inl ⟨i, rfl, field, rfl⟩)
    | some value => exact .inl ⟨i, value, rfl, field, rfl⟩
  | nil | bool | number | string | native | closure | «class» => exact .inr (.inr rfl)

/-- A method of the superclass is bound only where `super` holds a class and the frame just inside
holds an instance under `this`. -/
theorem superMethod_cases (id : NodeId) (line : Nat) (method : String) (m : Machine) :
    (∃ distance parent i, m.distances[id]? = some distance ∧
      m.heap.getAt? m.current distance "super" = some (.class parent) ∧
      m.heap.getAt? m.current (distance - 1) "this" = some (.instance i) ∧
      superMethod id line method m = bound (parent.method? method) i method line m) ∨
    ∃ cause, superMethod id line method m = fail cause line m := by
  unfold superMethod
  cases known : m.distances[id]? with
  | none => exact .inr ⟨_, rfl⟩
  | some distance =>
    dsimp only
    cases above : m.heap.getAt? m.current distance "super" with
    | none => exact .inr ⟨_, rfl⟩
    | some parent =>
      cases parent with
      | «class» parent =>
        dsimp only
        cases receiver : m.heap.getAt? m.current (distance - 1) "this" with
        | none => exact .inr ⟨_, rfl⟩
        | some object =>
          cases object with
          | «instance» i => exact .inl ⟨distance, parent, i, rfl, above, receiver, rfl⟩
          | nil | bool | number | string | native | closure | «class» => exact .inr ⟨_, rfl⟩
      | nil | bool | number | string | native | closure | «instance» => exact .inr ⟨_, rfl⟩

/-- A superclass is the class that its name is bound to. -/
theorem superclass?_cases (parent : Superclass) (m : Machine) :
    (∃ frame c, m.place? parent.id parent.name.lexeme = some frame ∧
      m.heap.read? frame parent.name.lexeme = some (.class c) ∧
      superclass? (some parent) m = .ok (some c) m) ∨
    ∃ cause, superclass? (some parent) m = fail cause parent.name.line m := by
  show (∃ frame c, _ ∧ _ ∧ (lookUp parent.id parent.name.lexeme parent.name.line >>= _) m = _) ∨
    ∃ cause, (lookUp parent.id parent.name.lexeme parent.name.line >>= _) m = _
  rw [bind_eq]
  rcases lookUp_cases parent.id parent.name.lexeme parent.name.line m with
    ⟨frame, value, place, found, same⟩ | same
  · rw [same]
    cases value with
    | «class» c => exact .inl ⟨frame, c, place, found, rfl⟩
    | nil | bool | number | string | native | closure | «instance» => exact .inr ⟨_, rfl⟩
  · rw [same]
    exact .inr ⟨_, rfl⟩

theorem result_cases (f : Closure) (line : Nat) (completion : Completion) (m : Machine) :
    (∃ value, f.isInitializer = true ∧ m.heap.read? f.frame "this" = some value ∧
      result f line completion m = .ok value m) ∨
    (f.isInitializer = true ∧ m.heap.read? f.frame "this" = none ∧
      result f line completion m = fail (.undefinedVariable "this") line m) ∨
    (∃ value, f.isInitializer = false ∧ completion = .returned value ∧
      result f line completion m = .ok value m) ∨
    (f.isInitializer = false ∧ completion = .normal ∧ result f line completion m = .ok .nil m) := by
  unfold result
  cases f.isInitializer with
  | true =>
    rw [if_pos rfl]
    cases receiver : m.heap.read? f.frame "this" with
    | none => exact .inr (.inl ⟨rfl, rfl, rfl⟩)
    | some value => exact .inl ⟨value, rfl, rfl, rfl⟩
  | false =>
    cases completion with
    | normal => exact .inr (.inr (.inr ⟨rfl, rfl, rfl⟩))
    | returned value => exact .inr (.inr (.inl ⟨value, rfl, rfl, rfl⟩))

end Eval

/-- A program behind another is executed where that has ended. -/
theorem executeProgram_append (bound : Nat) (ss ss' : List Stmt) :
    executeProgram bound (ss ++ ss')
      = executeProgram bound ss >>= fun _ => executeProgram bound ss' := by
  induction ss with
  | nil => rfl
  | cons s ss ih =>
    show (execute bound s >>= fun _ => executeProgram bound (ss ++ ss')) = _
    rw [ih]
    exact (bind_assoc _ _ _).symm

end Lox
