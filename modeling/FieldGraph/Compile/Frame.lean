import FieldGraph.Library.Interface

/-! # Frames

A function that is embedded twice is expanded twice. A frame is one expansion of a function, named
by the function nodes that lead to it from the compiled function.
-/

namespace FieldGraph

/-- One expansion of a function. -/
inductive Frame where
  | root (id : FunctionId) (function : Function)
  | embedded (parent : Frame) (site : Node) (id : FunctionId) (function : Function)

namespace Frame

def function : Frame → Function
  | .root _ function => function
  | .embedded _ _ _ function => function

/-- The function nodes that lead to the frame, outermost first. -/
def path : Frame → List Int
  | .root _ _ => []
  | .embedded parent site _ _ => parent.path ++ [site.id]

/-- The functions that the frame is nested in, itself included. -/
def chain : Frame → List FunctionId
  | .root id _ => [id]
  | .embedded parent _ id _ => parent.chain ++ [id]

def isRoot : Frame → Bool
  | .root _ _ => true
  | .embedded _ _ _ _ => false

/-- The node of the compiled function that a node of the frame belongs to. -/
def origin : Frame → Int → Int
  | .root _ _, id => id
  | .embedded parent site _ _, _ => parent.origin site.id

end Frame

end FieldGraph
