import StackScript.Location

/-!
# Call stacks

* `CallItem` — a called word and the place it was called from.
* `CallStack` — the calls in progress, innermost first.  Its depth is kept beside the items, since
  every call compares it with the limit; the two always agree.
-/

set_option autoImplicit false

namespace StackScript

/-- A word being executed, and the place in the source it was called from. -/
structure CallItem where
  word : String
  location : Location
deriving DecidableEq, Repr

/-- The written form: the place of the call, then the word. -/
def CallItem.display (item : CallItem) : String :=
  item.location.display ++ ": " ++ item.word

/-- The calls in progress, innermost first, and how many there are. -/
structure CallStack where
  items : List CallItem
  depth : Nat
  depth_eq : depth = items.length
deriving DecidableEq, Repr

namespace CallStack

def ofItems (items : List CallItem) : CallStack := ⟨items, items.length, rfl⟩

def empty : CallStack := ofItems []

instance : Inhabited CallStack := ⟨empty⟩

/-- Open a call inside the others. -/
def push (item : CallItem) (calls : CallStack) : CallStack :=
  ⟨item :: calls.items, calls.depth + 1, by rw [calls.depth_eq, List.length_cons]⟩

/-- Close the innermost call. -/
def pop (calls : CallStack) : CallStack :=
  ⟨calls.items.tail, calls.depth - 1, by rw [calls.depth_eq, List.length_tail]⟩

/-- Close inner calls until at most `depth` are left. -/
def truncate (depth : Nat) (calls : CallStack) : CallStack :=
  ⟨calls.items.drop (calls.depth - depth), calls.depth - (calls.depth - depth), by
    rw [List.length_drop, ← calls.depth_eq]⟩

def outermostFirst (calls : CallStack) : List CallItem := calls.items.reverse

@[ext] theorem ext {a b : CallStack} (h : a.items = b.items) : a = b := by
  obtain ⟨xs, n, hn⟩ := a
  obtain ⟨ys, m, hm⟩ := b
  obtain rfl : xs = ys := h
  obtain rfl : n = m := hn.trans hm.symm
  rfl

@[simp] theorem items_push (item : CallItem) (calls : CallStack) :
    (calls.push item).items = item :: calls.items := rfl

@[simp] theorem depth_push (item : CallItem) (calls : CallStack) :
    (calls.push item).depth = calls.depth + 1 := rfl

@[simp] theorem pop_push (item : CallItem) (calls : CallStack) :
    (calls.push item).pop = calls := ext rfl

@[simp] theorem truncate_depth (calls : CallStack) : calls.truncate calls.depth = calls := by
  ext1; simp [truncate]

end CallStack

end StackScript
