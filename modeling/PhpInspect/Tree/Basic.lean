import PhpInspect.Tree.Kind

/-! # Analysis trees

The tree that the rules read. Nodes are numbered in the order in which they are added, the root being
node `0`; each node knows its parent and its children, so a rule can walk both ways.
-/

namespace PhpInspect

/-- What a node says about the source, apart from its place in the tree. -/
structure Label where
  kind : Kind
  /-- The identifying text: a variable's name, a callee, a keyword or an operator. -/
  image : String
  beginLine : Nat
  endLine : Nat
  /-- A method without a body. -/
  isAbstract : Bool := false
deriving Repr, DecidableEq, Inhabited

structure Node extends Label where
  parent : Option Nat
  children : List Nat
deriving Repr, DecidableEq, Inhabited

structure Tree where
  nodes : Array Node
deriving Repr, DecidableEq

namespace Tree

def root : Nat := 0

def empty (beginLine endLine : Nat) : Tree :=
  ⟨#[{ kind := .program, image := "", beginLine, endLine, parent := none, children := [] }]⟩

def size (t : Tree) : Nat := t.nodes.size

/-- The node with number `i`; a bare root for a number that is not in use. -/
def node (t : Tree) (i : Nat) : Node :=
  t.nodes.getD i { kind := .program, image := "", beginLine := 0, endLine := 0, parent := none,
                   children := [] }

/-- Adds a node as the last child of `parent`. Its number is the size of the tree before. -/
def push (t : Tree) (label : Label) (parent : Nat) : Tree :=
  let i := t.size
  ⟨(t.nodes.modify parent fun n => { n with children := n.children ++ [i] }).push
    { label with parent := some parent, children := [] }⟩

def setAbstract (t : Tree) (i : Nat) : Tree :=
  ⟨t.nodes.modify i fun n => { n with isAbstract := true }⟩

@[simp] theorem size_empty (b e : Nat) : (empty b e).size = 1 := rfl

@[simp] theorem size_push (t : Tree) (label : Label) (parent : Nat) :
    (t.push label parent).size = t.size + 1 := by simp [push, size]

@[simp] theorem size_setAbstract (t : Tree) (i : Nat) : (t.setAbstract i).size = t.size := by
  simp [setAbstract, size]

/-! ### Reading a node -/

def kind (t : Tree) (i : Nat) : Kind := (t.node i).kind

def image (t : Tree) (i : Nat) : String := (t.node i).image

def beginLine (t : Tree) (i : Nat) : Nat := (t.node i).beginLine

def endLine (t : Tree) (i : Nat) : Nat := (t.node i).endLine

def isAbstract (t : Tree) (i : Nat) : Bool := (t.node i).isAbstract

def parent (t : Tree) (i : Nat) : Option Nat := (t.node i).parent

def children (t : Tree) (i : Nat) : List Nat := (t.node i).children

/-! ### Neighbours -/

def child? (t : Tree) (i index : Nat) : Option Nat := (t.children i)[index]?

def indexInParent (t : Tree) (i : Nat) : Option Nat :=
  (t.parent i).bind fun p => (t.children p).findIdx? (· == i)

def nextSibling (t : Tree) (i : Nat) : Option Nat :=
  (t.parent i).bind fun p => (t.indexInParent i).bind fun index => t.child? p (index + 1)

/-- No sibling follows the node; so it is for the root. -/
def isLastChild (t : Tree) (i : Nat) : Bool := (t.nextSibling i).isNone

def firstChildOfKind (t : Tree) (i : Nat) (kind : Kind) : Option Nat :=
  (t.children i).find? fun c => t.kind c == kind

/-! ### Walking the tree -/

/-- Takes nodes off a stack of pending nodes, putting the children of each on top. In a tree of `n`
nodes at most `n` steps are taken. -/
def walk (t : Tree) : Nat → List Nat → List Nat
  | 0, _ => []
  | _ + 1, [] => []
  | steps + 1, i :: pending => i :: t.walk steps (t.children i ++ pending)

def descendants (t : Tree) (i : Nat) : List Nat := t.walk t.size (t.children i)

def descendantsOfKind (t : Tree) (i : Nat) (kind : Kind) : List Nat :=
  (t.descendants i).filter fun d => t.kind d == kind

def climb (t : Tree) : Nat → Option Nat → List Nat
  | 0, _ => []
  | _ + 1, none => []
  | steps + 1, some i => i :: t.climb steps (t.parent i)

def ancestors (t : Tree) (i : Nat) : List Nat := t.climb t.size (t.parent i)

def units (t : Tree) : List Nat := (t.descendants root).filter fun d => (t.kind d).isUnit

/-! ### Variables -/

def superglobals : List String :=
  ["$GLOBALS", "$_SERVER", "$_GET", "$_POST", "$_FILES", "$_COOKIE", "$_SESSION", "$_REQUEST", "$_ENV"]

/-- The names that stand for a variable of the scope around them. -/
def isLocalName (name : String) : Bool := name != "$this" && !superglobals.contains name

def isLocalVariable (t : Tree) (i : Nat) : Bool := t.kind i == .var && isLocalName (t.image i)

end Tree

end PhpInspect
