import AndInverter.Simulation.Words

namespace AndInverter

/-! Words of literals. The word of a literal has in every lane what the literal makes of the
value of its node, so two opposite literals never have the same word. -/

namespace Word

theorem lane_not (word : Word) {index : Nat} (inside : index < 32) :
    (~~~ word).lane index = !word.lane index := by
  simp [lane, inside]

theorem not_ne (word : Word) : ~~~ word ≠ word := by
  intro equal
  have lanes := word.lane_not (show 0 < 32 from by decide)
  rw [equal] at lanes
  cases value : word.lane 0 <;> simp [value] at lanes

end Word

namespace Words

theorem ofNode_zeros (size id : Nat) : (zeros size).ofNode id = 0#32 := by
  simp only [ofNode, zeros, Array.getElem?_replicate]
  split <;> rfl

theorem ofNode_set_of_ne {id other : Nat} (different : id ≠ other) (word : Word)
    (words : Words) : (words.set id word).ofNode other = words.ofNode other := by
  rw [ofNode, set, Array.getElem?_setIfInBounds_ne different, ofNode]

/-! ## Writing words -/

theorem ofNode_foldl_set_of_not_mem {id : Nat} {ids : List Nat} (missing : id ∉ ids)
    (given : List Word) (words : Words) :
    ((ids.zip given).foldl (fun words (id, word) => words.set id word) words).ofNode id =
      words.ofNode id := by
  induction ids generalizing given words with
  | nil => rfl
  | cons head tail induction =>
      cases given with
      | nil => rfl
      | cons word others =>
          rw [List.mem_cons, not_or] at missing
          rw [List.zip_cons_cons, List.foldl_cons, induction missing.2,
            ofNode_set_of_ne (Ne.symm missing.1)]

theorem ofNode_foldl_set {ids : List Nat} (nodup : ids.Nodup) {id : Nat} (member : id ∈ ids)
    (given : List Word) {words : Words} (room : ∀ other ∈ ids, other < words.size) :
    ((ids.zip given).foldl (fun words (id, word) => words.set id word) words).ofNode id =
      (given[ids.idxOf id]?).getD (words.ofNode id) := by
  induction ids generalizing given words with
  | nil => cases member
  | cons head tail induction =>
      rcases List.nodup_cons.mp nodup with ⟨fresh, others⟩
      cases given with
      | nil => rfl
      | cons word rest =>
          rw [List.zip_cons_cons, List.foldl_cons]
          by_cases same : head = id
          · subst same
            rw [ofNode_foldl_set_of_not_mem fresh,
              ofNode_set head word words head (room head List.mem_cons_self), if_pos rfl,
              List.idxOf_cons_self]
            rfl
          · have inside := (List.mem_cons.mp member).resolve_left (Ne.symm same)
            have roomAfter : ∀ other ∈ tail, other < (words.set head word).size := by
              intro other otherMember
              rw [size_set]
              exact room other (.tail head otherMember)
            rw [induction others inside rest roomAfter, ofNode_set_of_ne same,
              List.idxOf_cons, beq_eq_false_iff_ne.mpr same]
            rfl

/-! ## Reading words -/

variable (words : Words)

theorem lane_ofLiteral (literal : Literal) {lane : Nat} (inside : lane < 32) :
    (words.ofLiteral literal).lane lane =
      ((words.ofNode literal.node).lane lane != literal.inverted) := by
  simp [ofLiteral, Literal.mask, inside]

theorem ofLiteral_of_not_inverted {literal : Literal} (plain : literal.inverted = false) :
    words.ofLiteral literal = words.ofNode literal.node := by
  simp [ofLiteral, Literal.mask, plain, Word.fill]

theorem ofLiteral_not (literal : Literal) :
    words.ofLiteral literal.not = ~~~ words.ofLiteral literal := by
  apply Word.ext_lane
  intro lane inside
  rw [Word.lane_not _ inside, lane_ofLiteral _ _ inside, lane_ofLiteral _ _ inside]
  cases flag : literal.inverted <;> simp [Literal.not, flag]

theorem ofLiteral_xor (literal : Literal) (flip : Bool) :
    words.ofLiteral (literal.xor flip) =
      if flip then ~~~ words.ofLiteral literal else words.ofLiteral literal := by
  cases flip with
  | false => rw [Literal.xor_false, if_neg Bool.false_ne_true]
  | true => rw [Literal.xor_true, ofLiteral_not, if_pos rfl]

theorem ofLiteral_eq (literal : Literal) :
    words.ofLiteral literal =
      if literal.inverted then ~~~ words.ofNode literal.node else words.ofNode literal.node := by
  rcases literal with ⟨node, inverted⟩
  cases inverted with
  | false => exact words.ofLiteral_of_not_inverted rfl
  | true =>
      rw [show (⟨node, true⟩ : Literal) = (Literal.plain node).not from rfl, ofLiteral_not,
        words.ofLiteral_of_not_inverted rfl]
      rfl

end Words

end AndInverter
