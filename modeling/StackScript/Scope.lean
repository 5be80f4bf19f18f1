import StackScript.Instruction

/-!
# Words and scopes

Words are bound in scopes, and scopes form a forest: each scope but the outermost ones has a parent,
fixed when it is created, and a name that a scope does not bind is looked up in its ancestors.

* `Word` — a name, what it runs, and what is known about it.  The type `ν` names the native words
  of the host.
* `Scope` — the words bound in one scope, in strictly increasing order of their names, and the chain
  of its ancestors.  A word is bound under its own name and under no other, so the table of a scope is
  this row of words; there are no keys beside them.
* `Forest` — all scopes ever created, numbered in the order of their creation.
* `Forest.define`, `Forest.lookup` — binding in one scope, and finding along its chain.
* `Forest.merged` — every word that is visible from a scope.
-/

set_option autoImplicit false

namespace StackScript

variable {ν : Type}

/-- What runs when a word is called: a word of the host, or code that a script defined. -/
inductive WordBody (ν : Type) where
  | native (word : ν)
  | scripted (code : Code)
deriving Repr

/-- A word as it is bound in a scope: where it was defined, under which name, what it does, and what it runs.
Scripted words have no description. -/
structure Word (ν : Type) where
  location : Location
  name : String
  description : String
  body : WordBody ν
deriving Repr

/-- Was the word provided by the host? -/
def Word.isNative (word : Word ν) : Bool :=
  match word.body with
  | .native _ => true
  | .scripted _ => false

/-- Bind a word among others in increasing order of names, in place of one with the same name. -/
def insertWord (word : Word ν) : List (Word ν) → List (Word ν)
  | [] => [word]
  | other :: rest =>
    if word.name < other.name then word :: other :: rest
    else if word.name = other.name then word :: rest
    else other :: insertWord word rest

/-- One scope: the scopes around it, nearest first, and the words bound in itself, in increasing order of their
names. -/
structure Scope (ν : Type) where
  ancestors : List ScopeId
  words : List (Word ν)
deriving Repr

/-- All scopes, numbered in the order of their creation. -/
structure Forest (ν : Type) where
  scopes : Array (Scope ν)
deriving Repr

namespace Forest

def empty : Forest ν := ⟨#[]⟩

instance : Inhabited (Forest ν) := ⟨empty⟩

/-- How many scopes there are; also the number of the next one. -/
def size (forest : Forest ν) : Nat := forest.scopes.size

def ancestors (forest : Forest ν) (scope : ScopeId) : List ScopeId :=
  match forest.scopes[scope]? with
  | some s => s.ancestors
  | none => []

def words (forest : Forest ν) (scope : ScopeId) : List (Word ν) :=
  match forest.scopes[scope]? with
  | some s => s.words
  | none => []

/-- The scope itself and the scopes around it, nearest first: the order of a lookup. -/
def chain (forest : Forest ν) (scope : ScopeId) : List ScopeId :=
  scope :: forest.ancestors scope

/-- The scope directly around a scope. -/
def parent? (forest : Forest ν) (scope : ScopeId) : Option ScopeId :=
  (forest.ancestors scope).head?

def depth (forest : Forest ν) (scope : ScopeId) : Nat := (forest.ancestors scope).length

/-- A new scope with nothing around it.  Its number is the size of the forest before. -/
def newHost (forest : Forest ν) : Forest ν := ⟨forest.scopes.push ⟨[], []⟩⟩

/-- A new scope inside `parent`.  Its number is the size of the forest before. -/
def newChild (forest : Forest ν) (parent : ScopeId) : Forest ν :=
  ⟨forest.scopes.push ⟨forest.chain parent, []⟩⟩

/-- Bind a word in a scope.  Scopes around it that bind the name too are shadowed, not changed. -/
def define (forest : Forest ν) (scope : ScopeId) (word : Word ν) : Forest ν :=
  ⟨forest.scopes.modify scope fun s => { s with words := insertWord word s.words }⟩

/-- The word that the scope itself binds to a name. -/
def local? (forest : Forest ν) (scope : ScopeId) (name : String) : Option (Word ν) :=
  (forest.words scope).find? fun word => word.name == name

/-- Does the scope itself bind the name? -/
def bindsLocally (forest : Forest ν) (scope : ScopeId) (name : String) : Bool :=
  (forest.local? scope name).isSome

/-- The word that a name means in a scope: the binding nearest to it. -/
def lookup (forest : Forest ν) (scope : ScopeId) (name : String) : Option (Word ν) :=
  (forest.chain scope).findSome? fun s => forest.local? s name

/-- The names bound in the scope itself, in increasing order. -/
def localNames (forest : Forest ν) (scope : ScopeId) : List String :=
  (forest.words scope).map Word.name

/-- Bind many words among others in increasing order of names. -/
def mergeWords (outer inner : List (Word ν)) : List (Word ν) :=
  inner.foldl (fun words word => insertWord word words) outer

/-- Every word visible from the scope, in increasing order of names; of several bindings of a name
the nearest.  The words are collected from the farthest scope inwards. -/
def merged (forest : Forest ν) (scope : ScopeId) : List (Word ν) :=
  (forest.chain scope).foldr (fun s words => mergeWords words (forest.words s)) []

end Forest

end StackScript
