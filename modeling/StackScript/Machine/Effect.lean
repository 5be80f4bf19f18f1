import StackScript.Machine.State

/-!
# What the primitives do

Operands are taken off the stack before they are looked at, so an operation that fails on them has
removed them; the single operand of a binary operation is removed even though the second is missing.

In the comments `b` is the lower operand and `a` the one on top: operations read from left to right.
-/

set_option autoImplicit false

namespace StackScript

variable {ν : Type}

namespace State

/-- Take the two topmost values off the stack and go on with the lower and the upper one. -/
def withOperands (state : State ν) (next : Value → Value → State ν → Outcome ν) : Outcome ν :=
  match state.stack with
  | a :: b :: rest => next b a { state with stack := rest }
  | [_] => { state with stack := [] }.fail .stackUnderflow
  | [] => state.fail .stackUnderflow

/-- Carry out an operation that is defined on two numbers. -/
def arithmetic (state : State ν) (operation : Primitive) (compute : Float → Float → Float) :
    Outcome ν :=
  state.withOperands fun b a state =>
    match b, a with
    | .number y, .number x => .done (state.push (.number (compute y x)))
    | b, a => state.fail (.notNumbers operation b.kind a.kind)

end State

/-- The sum of two values: of numbers their sum, with a text on either side the two written forms
one after the other. -/
def Value.sum? (names : ScopeId → List String) (b a : Value) : Option Value :=
  match b, a with
  | .number y, .number x => some (.number (y + x))
  | .text s, a => some (.text (s ++ a.display names))
  | b, .text s => some (.text (b.display names ++ s))
  | _, _ => none

/-- Is `b` greater than `a`?  Numbers and texts are ordered, among themselves. -/
def Value.greater? (b a : Value) : Option Bool :=
  match b, a with
  | .number y, .number x => some (decide (x < y))
  | .text t, .text s => some (decide (s < t))
  | _, _ => none

/-- What a primitive does to the state. -/
def Primitive.effect (operation : Primitive) (state : State ν) : Outcome ν :=
  match operation with
  | .dup =>
    match state.stack with
    | [] => state.fail .stackUnderflow
    | value :: _ => .done (state.push value)
  | .drop =>
    match state.stack with
    | [] => state.fail .stackUnderflow
    | _ :: rest => .done { state with stack := rest }
  | .add =>
    state.withOperands fun b a state =>
      match Value.sum? state.names b a with
      | some value => .done (state.push value)
      | none => state.fail (.cannotAdd b.kind a.kind)
  | .subtract => state.arithmetic .subtract fun y x => y - x
  | .multiply => state.arithmetic .multiply fun y x => y * x
  | .divide => state.arithmetic .divide fun y x => y / x
  | .equal => state.withOperands fun b a state => .done (state.push (.bool (b.same a)))
  | .greaterThan =>
    state.withOperands fun b a state =>
      match Value.greater? b a with
      | some answer => .done (state.push (.bool answer))
      | none => state.fail (.cannotCompare b.kind a.kind)
  | .not =>
    match state.stack with
    | [] => state.fail .stackUnderflow
    | value :: rest => .done { state with stack := .bool (!value.isTruthy) :: rest }
  | .spew =>
    match state.stack with
    | [] => state.fail .stackUnderflow
    | value :: _ => state.write (state.display value ++ "\n")
  | .package =>
    .done { state with
      forest := state.forest.newChild state.scope
      scope := state.forest.size }
  | .endPackage =>
    match state.forest.parent? state.scope with
    | none => state.fail .noEnclosingScope
    | some parent =>
      .done { state with stack := .package state.scope :: state.stack, scope := parent }

end StackScript
