import Mathlib.Data.List.Infix
import Mathlib.Data.List.TakeWhile

/-! A text read in chunks, none longer than a buffer and none past the end of a line,
and the list of what is read, kept once. -/
namespace Lines
variable {α : Type*} [DecidableEq α] {newline : α} {room : Nat} {text line chunk : List α}

/-- The next chunk, and what is left of the text. -/
def takeChunk (newline : α) : (room : Nat) → (text : List α) → List α × List α
  | 0, text => ([], text)
  | _, [] => ([], [])
  | room + 1, c :: text =>
    if c = newline then ([c], text)
    else
      let (chunk, rest) := takeChunk newline room text
      (c :: chunk, rest)

theorem takeChunk_append (newline : α) (room : Nat) (text : List α) :
    (takeChunk newline room text).1 ++ (takeChunk newline room text).2 = text := by
  fun_induction takeChunk newline room text with
  | case1 => rfl
  | case2 => rfl
  | case3 => rfl
  | case4 room c text more chunk rest same ih =>
    rw [same] at ih
    exact congrArg (c :: ·) ih

theorem takeChunk_length (newline : α) (room : Nat) (text : List α) :
    (takeChunk newline room text).1.length ≤ room := by
  fun_induction takeChunk newline room text with
  | case1 => exact le_refl 0
  | case2 => exact Nat.zero_le _
  | case3 => simp
  | case4 room c text more chunk rest same ih =>
    rw [same] at ih
    exact Nat.succ_le_succ ih

theorem takeChunk_shorter (positive : 0 < room) (left : text ≠ []) :
    (takeChunk newline room text).2.length < text.length := by
  obtain ⟨room, rfl⟩ := Nat.exists_eq_add_one_of_ne_zero positive.ne'
  obtain ⟨c, text, rfl⟩ := List.exists_cons_of_ne_nil left
  have parts := congrArg List.length (takeChunk_append newline (room + 1) (c :: text))
  rw [List.length_append] at parts
  have taken : (takeChunk newline (room + 1) (c :: text)).1 ≠ [] := by
    rw [takeChunk]
    split
    · exact List.cons_ne_nil _ _
    · exact List.cons_ne_nil _ _
  have positive := List.length_pos_iff.mpr taken
  omega

def chunks (newline : α) (room : Nat) (text : List α) : List (List α) :=
  if _more : 0 < room ∧ text ≠ [] then
    (takeChunk newline room text).1 :: chunks newline room (takeChunk newline room text).2
  else []
termination_by text.length
decreasing_by exact takeChunk_shorter _more.1 _more.2

@[simp] theorem chunks_nil (newline : α) (room : Nat) : chunks newline room [] = [] := by
  rw [chunks]
  simp

theorem chunks_eq (positive : 0 < room) (left : text ≠ []) :
    chunks newline room text =
      (takeChunk newline room text).1 :: chunks newline room (takeChunk newline room text).2 := by
  rw [chunks, dif_pos ⟨positive, left⟩]

theorem chunk_length (member : chunk ∈ chunks newline room text) : chunk.length ≤ room := by
  fun_induction chunks newline room text with
  | case1 text _ ih =>
    rcases List.mem_cons.mp member with rfl | later
    · exact takeChunk_length newline room text
    · exact ih later
  | case2 => cases member

theorem mem_text_of_mem_chunk {c : α} (member : chunk ∈ chunks newline room text)
    (inside : c ∈ chunk) : c ∈ text := by
  fun_induction chunks newline room text with
  | case1 text _ ih =>
    rw [← takeChunk_append newline room text, List.mem_append]
    rcases List.mem_cons.mp member with rfl | later
    · exact Or.inl inside
    · exact Or.inr (ih later)
  | case2 => cases member

def body (newline : α) (chunk : List α) : List α :=
  if chunk.getLast? = some newline then chunk.dropLast else chunk

theorem body_length (newline : α) (chunk : List α) : (body newline chunk).length ≤ chunk.length := by
  unfold body
  split
  · rw [List.length_dropLast]
    exact Nat.sub_le _ _
  · exact le_refl _

@[simp] theorem body_line (newline : α) (line : List α) :
    body newline (line ++ [newline]) = line := by
  simp [body]

theorem body_piece (fresh : newline ∉ line) : body newline line = line := by
  rw [body, if_neg]
  intro last
  exact fresh (List.mem_of_getLast? last)

theorem takeChunk_line (fresh : newline ∉ line) (fits : line.length < room) (rest : List α) :
    takeChunk newline room (line ++ newline :: rest) = (line ++ [newline], rest) := by
  induction line generalizing room with
  | nil =>
    obtain ⟨room, rfl⟩ := Nat.exists_eq_add_one_of_ne_zero (Nat.ne_of_gt fits)
    simp [takeChunk]
  | cons c line ih =>
    obtain ⟨room, rfl⟩ := Nat.exists_eq_add_one_of_ne_zero (Nat.ne_zero_of_lt fits)
    obtain ⟨other, fresh⟩ := not_or.mp (List.mem_cons.not.mp fresh)
    rw [List.cons_append, takeChunk, if_neg (Ne.symm other),
      ih fresh (Nat.lt_of_succ_lt_succ fits)]
    rfl

theorem takeChunk_piece (fresh : newline ∉ line) (rest : List α) :
    takeChunk newline line.length (line ++ rest) = (line, rest) := by
  induction line with
  | nil => rfl
  | cons c line ih =>
    obtain ⟨other, fresh⟩ := not_or.mp (List.mem_cons.not.mp fresh)
    rw [List.cons_append, List.length_cons, takeChunk, if_neg (Ne.symm other), ih fresh]

theorem takeChunk_last (fresh : newline ∉ line) (fits : line.length ≤ room) :
    takeChunk newline room line = (line, []) := by
  induction line generalizing room with
  | nil => cases room <;> rfl
  | cons c line ih =>
    obtain ⟨room, rfl⟩ := Nat.exists_eq_add_one_of_ne_zero (Nat.ne_zero_of_lt fits)
    obtain ⟨other, fresh⟩ := not_or.mp (List.mem_cons.not.mp fresh)
    rw [takeChunk, if_neg (Ne.symm other), ih fresh (Nat.le_of_succ_le_succ fits)]

/-- The lines of a text that say something. -/
def nonempty (lines : List (List α)) : List (List α) := lines.filter fun line => line ≠ []

/-- The bodies of the chunks of one line that fits, and of the text after it. A line
as long as the buffer leaves its end alone in the next chunk. -/
theorem bodies_line (fresh : newline ∉ line) (fits : line.length ≤ room) (positive : 0 < room)
    (rest : List α) :
    nonempty ((chunks newline room (line ++ newline :: rest)).map (body newline)) =
      nonempty (line :: (chunks newline room rest).map (body newline)) := by
  rcases Nat.lt_or_eq_of_le fits with shorter | rfl
  · rw [chunks_eq positive (by simp), takeChunk_line fresh shorter]
    simp
  · have ending : takeChunk newline line.length (newline :: rest) = ([newline], rest) :=
      takeChunk_line List.not_mem_nil positive rest
    rw [chunks_eq positive (by simp), takeChunk_piece fresh, chunks_eq positive (by simp), ending]
    have blank : body newline [newline] = [] := body_line newline []
    rw [List.map_cons, List.map_cons, blank, body_piece fresh]
    simp [nonempty, List.filter_cons]

/-- Read in chunks that every line fits, a text keeps its lines. -/
theorem bodies_eq_lines (positive : 0 < room)
    (fits : ∀ line ∈ text.splitOn newline, line.length ≤ room) :
    nonempty ((chunks newline room text).map (body newline)) = nonempty (text.splitOn newline) := by
  induction size : text.length using Nat.strong_induction_on generalizing text with | _ size ih
  by_cases ended : newline ∈ text
  · obtain ⟨line, rest, rfl, fresh⟩ := List.eq_append_cons_of_mem ended
    rw [List.splitOn_append_cons_self_of_not_mem fresh] at fits ⊢
    obtain ⟨first, later⟩ := List.forall_mem_cons.mp fits
    rw [List.length_append, List.length_cons] at size
    have tail := ih rest.length (by omega) later rfl
    rw [bodies_line fresh first positive]
    simp only [nonempty, List.filter_cons] at tail ⊢
    rw [tail]
  · rw [List.splitOn_eq_singleton ended] at fits ⊢
    have short := fits text (List.mem_singleton_self text)
    by_cases left : text = []
    · subst left
      simp [nonempty]
    · rw [chunks_eq positive left, takeChunk_last ended short, chunks_nil]
      simp [body_piece ended]

theorem takeWhile_fresh {stop : α} (fresh : stop ∉ text) :
    (text.takeWhile fun c => c ≠ stop) = text := by
  rw [List.takeWhile_eq_self_iff]
  intro c member
  rw [decide_eq_true_iff]
  rintro rfl
  exact fresh member

section Once
variable {β : Type*} [BEq β] [LawfulBEq β]

def insertNew (seen : List β) (item : β) : List β :=
  if seen.contains item then seen else seen ++ [item]

/-- Items kept once are those of the first occurrences. -/
theorem foldl_insertNew (items seen : List β) :
    items.foldl insertNew seen =
      seen ++ (items.filter fun item => !seen.contains item).eraseDups := by
  induction items generalizing seen with
  | nil => simp
  | cons item items ih =>
    rw [List.foldl_cons, ih, insertNew]
    by_cases old : seen.contains item
    · rw [if_pos old, List.filter_cons_of_neg (by rw [old]; exact Bool.false_ne_true)]
    · have kept : ((item :: items).filter fun other => !seen.contains other) =
          item :: items.filter fun other => !seen.contains other :=
        List.filter_cons_of_pos (by simpa using old)
      have later : (items.filter fun other => !(seen ++ [item]).contains other) =
          (items.filter fun other => !seen.contains other).filter fun other => !other == item := by
        rw [List.filter_filter]
        congr
        funext other
        rw [List.contains_append, List.contains_cons, List.contains_nil, Bool.or_false,
          Bool.not_or, Bool.and_comm]
      rw [if_neg old, kept, List.eraseDups_cons, later, List.append_assoc, List.singleton_append]

end Once

end Lines
