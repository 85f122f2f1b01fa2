import Mathlib.Data.List.Infix

/-! The words of a text: its longest pieces without a separator, as `split()`
of most languages yields them. -/
namespace Words
variable {α : Type*} {isSeparator : α → Bool} {text piece acc : List α}

def words (isSeparator : α → Bool) (text : List α) : List (List α) :=
  (text.splitOnP isSeparator).filter fun piece => !piece.isEmpty

/-- The induction carries the piece read so far, reversed, in front of the rest. -/
theorem mem_splitOnPPrepend (member : piece ∈ text.splitOnPPrepend isSeparator acc) :
    piece <:+: acc.reverse ++ text := by
  induction text generalizing acc with
  | nil =>
    rw [List.splitOnPPrepend_nil, List.mem_singleton] at member
    rw [member, List.append_nil]
  | cons a text ih =>
    rw [List.splitOnPPrepend_cons_eq_if] at member
    split at member
    · rcases List.mem_cons.mp member with rfl | later
      · exact (List.prefix_append _ _).isInfix
      · have rest : piece <:+: [].reverse ++ text := ih later
        exact rest.trans ⟨acc.reverse ++ [a], [], by simp⟩
    · have rest := ih member
      rwa [List.reverse_cons, List.append_assoc, List.singleton_append] at rest

theorem infix_of_mem_words (member : piece ∈ words isSeparator text) : piece <:+: text :=
  have piece_mem : piece ∈ text.splitOnPPrepend isSeparator [] := List.mem_of_mem_filter member
  mem_splitOnPPrepend piece_mem

end Words
