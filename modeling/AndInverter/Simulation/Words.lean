import AndInverter.Literal

namespace AndInverter

/-! Simulated words, one a node, by id. A node that has no word counts as zero. -/

abbrev Words := Array Word

namespace Words

def ofNode (words : Words) (id : Nat) : Word :=
  words[id]?.getD 0#32

def ofLiteral (words : Words) (literal : Literal) : Word :=
  words.ofNode literal.node ^^^ literal.mask

def zeros (size : Nat) : Words :=
  Array.replicate size 0#32

def set (id : Nat) (word : Word) (words : Words) : Words :=
  words.setIfInBounds id word

@[simp] theorem size_set (id : Nat) (word : Word) (words : Words) :
    (words.set id word).size = words.size := by
  simp [set]

theorem ofNode_set (id : Nat) (word : Word) (words : Words) (other : Nat)
    (inside : id < words.size) :
    (words.set id word).ofNode other = if id = other then word else words.ofNode other := by
  by_cases same : id = other
  · subst same
    simp [ofNode, set, inside]
  · simp [ofNode, set, Array.getElem?_setIfInBounds_ne same, same]

end Words

end AndInverter
