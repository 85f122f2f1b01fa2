import UltraDisplay.Library.ShellWords.Quoting

/-! Which words a shell reads as they are when a line is put together from them with a
blank between two of them. A word without quotation stands for itself if no character of
it does anything else. -/
namespace ShellWords
variable {α : Type*}

/-- A hash is a character like others behind the first one. -/
structure Bare (kind : α → Kind) (word : List α) : Prop where
  some_char : word ≠ []
  chars : ∀ c ∈ word, kind c = .plain ∨ kind c = .digit ∨ kind c = .hash
  head : ∀ c ∈ word.head?, kind c ≠ .hash

instance (kind : α → Kind) (word : List α) : Decidable (Bare kind word) :=
  decidable_of_iff (word.isEmpty = false ∧
      (∀ c ∈ word, kind c = .plain ∨ kind c = .digit ∨ kind c = .hash) ∧
      ∀ c ∈ word.head?, kind c ≠ .hash)
    ⟨fun ⟨some_char, chars, head⟩ => ⟨List.isEmpty_eq_false_iff.mp some_char, chars, head⟩,
      fun ⟨some_char, chars, head⟩ => ⟨List.isEmpty_eq_false_iff.mpr some_char, chars, head⟩⟩

def join (blank : α) : List (List α) → List α
  | [] => []
  | [word] => word
  | word :: next :: words => word ++ blank :: join blank (next :: words)

variable {kind : α → Kind} {mode : Mode α} {word text rest chars : List α} {c blank : α}
  {tokens : List (Token α)} {step : Step α} {words : List (List α)}

/-- The modes in which a bare word is read. -/
def Mode.InWord : Mode α → Prop
  | .digits | .word => True
  | _ => False

theorem scan_chars (chars_bare : ∀ c ∈ chars, kind c = .plain ∨ kind c = .digit ∨ kind c = .hash)
    (reading : mode.InWord) (word rest : List α) :
    ∃ later : Mode α, later.InWord ∧
      scan kind mode word (chars ++ rest) = scan kind later (word ++ chars) rest := by
  induction chars generalizing mode word with
  | nil => exact ⟨mode, reading, by rw [List.nil_append, List.append_nil]⟩
  | cons c chars ih =>
    obtain ⟨first, others⟩ := List.forall_mem_cons.mp chars_bare
    obtain ⟨later, inside, stepped⟩ : ∃ later : Mode α, later.InWord ∧
        next kind mode word c = some ⟨[], later, word ++ [c]⟩ := by
      cases mode with
      | digits =>
        rcases first with plain | digit | hash
        · exact ⟨.word, trivial, by simp only [next, continueWord, plain]⟩
        · exact ⟨.digits, trivial, by simp only [next, digit]⟩
        · exact ⟨.word, trivial, by simp only [next, continueWord, hash]⟩
      | word =>
        refine ⟨.word, trivial, ?_⟩
        rcases first with plain | digit | hash
        · simp only [next, continueWord, plain]
        · simp only [next, continueWord, digit]
        · simp only [next, continueWord, hash]
      | _ => exact reading.elim
    obtain ⟨last, inside, scanned⟩ := ih others inside (word ++ [c])
    refine ⟨last, inside, ?_⟩
    rw [List.cons_append, scan_cons stepped, scanned, List.append_assoc, List.singleton_append]
    simp

theorem Bare.scan (bare : Bare kind word) (rest : List α) :
    ∃ later : Mode α, later.InWord ∧
      ShellWords.scan kind .start [] (word ++ rest) = ShellWords.scan kind later word rest := by
  obtain ⟨c, chars, rfl⟩ := List.exists_cons_of_ne_nil bare.some_char
  obtain ⟨first, others⟩ := List.forall_mem_cons.mp bare.chars
  obtain ⟨begun, inside, stepped⟩ : ∃ begun : Mode α, begun.InWord ∧
      next kind .start [] c = some ⟨[], begun, [c]⟩ := by
    rcases first with plain | digit | hash
    · exact ⟨.word, trivial, by simp only [next, beginWord, plain]⟩
    · exact ⟨.digits, trivial, by simp only [next, beginWord, digit]⟩
    · exact absurd hash (bare.head c rfl)
  obtain ⟨later, inside, scanned⟩ := scan_chars others inside [c] rest
  refine ⟨later, inside, ?_⟩
  rw [List.cons_append, scan_cons stepped, scanned]
  simp

theorem scan_blank (inside : mode.InWord) (blank_kind : kind blank = .blank) (word rest : List α) :
    scan kind mode word (blank :: rest) =
      (scan kind .start [] rest).map fun tokens => .word word :: tokens := by
  have stepped : next kind mode word blank = some ⟨[.word word], .start, []⟩ := by
    cases mode with
    | digits => simp only [next, continueWord, blank_kind]
    | word => simp only [next, continueWord, blank_kind]
    | _ => exact inside.elim
  rw [scan_cons stepped]
  rfl

theorem scan_join (blank_kind : kind blank = .blank) (bare : ∀ word ∈ words, Bare kind word) :
    scan kind .start [] (join blank words) = some (words.map .word) := by
  fun_induction join blank words with
  | case1 => rfl
  | case2 word =>
    obtain ⟨later, inside, scanned⟩ := (bare word (by simp)).scan []
    rw [List.append_nil] at scanned
    rw [scanned]
    cases later with
    | digits | word => rfl
    | _ => exact inside.elim
  | case3 word next words ih =>
    obtain ⟨first, others⟩ := List.forall_mem_cons.mp bare
    obtain ⟨later, inside, scanned⟩ := first.scan (blank :: join blank (next :: words))
    rw [scanned, scan_blank inside blank_kind, ih others]
    rfl

/-- What is read while nothing is quoted and nothing is a comment. -/
def Reading (kind : α → Kind) (word : List α) : Mode α → Prop
  | .start | .great => word = []
  | .digits | .word => Bare kind word
  | _ => False

theorem bare_singleton (ordinary : kind c = .plain ∨ kind c = .digit) : Bare kind [c] := by
  refine ⟨by simp, ?_, ?_⟩
  · rw [List.forall_mem_singleton]
    exact ordinary.imp_right .inl
  · rintro _ ⟨⟩ hash
    simp [hash] at ordinary

theorem Bare.append (bare : Bare kind word)
    (ordinary : kind c = .plain ∨ kind c = .digit ∨ kind c = .hash) : Bare kind (word ++ [c]) := by
  have chars := List.forall_mem_append.mpr ⟨bare.chars, List.forall_mem_singleton.mpr ordinary⟩
  refine ⟨by simp, chars, ?_⟩
  obtain ⟨first, rest, rfl⟩ := List.exists_cons_of_ne_nil bare.some_char
  exact bare.head

theorem beginWord_reading (begun : beginWord kind c = some step)
    (kept : [c].countP (quoting kind) ≤ step.kept.countP (quoting kind)) (unquoted : kind c ≠ .quote) :
    Reading kind step.word step.mode ∧ ∀ word, .word word ∉ step.out := by
  cases same : kind c <;> simp only [beginWord, same] at begun <;> cases begun
  case plain => exact ⟨bare_singleton (.inl same), by simp⟩
  case digit => exact ⟨bare_singleton (.inr same), by simp⟩
  case blank => exact ⟨rfl, by simp⟩
  case great => exact ⟨rfl, by simp⟩
  case quote => exact absurd same unquoted
  all_goals simp [Step.kept, held, quoting, same] at kept

theorem continueWord_reading (continued : continueWord kind word c = some step)
    (kept : (word ++ [c]).countP (quoting kind) ≤ step.kept.countP (quoting kind))
    (unquoted : kind c ≠ .quote) (bare : Bare kind word) :
    Reading kind step.word step.mode ∧ ∀ read, .word read ∈ step.out → Bare kind read := by
  cases same : kind c <;> simp only [continueWord, same] at continued <;> cases continued
  case plain => exact ⟨bare.append (.inl same), by simp⟩
  case digit => exact ⟨bare.append (.inr (.inl same)), by simp⟩
  case hash => exact ⟨bare.append (.inr (.inr same)), by simp⟩
  case blank => exact ⟨rfl, by simpa using bare⟩
  case great => exact ⟨rfl, by simpa using bare⟩
  case quote => exact absurd same unquoted
  all_goals
    have dropped : quoting kind c = true := by simp [quoting, same]
    simp only [Step.kept, held, List.flatMap_nil, List.countP_append, List.countP_cons,
      List.countP_nil, dropped, if_true] at kept
    omega

theorem next_reading (reading : Reading kind word mode) (stepped : next kind mode word c = some step)
    (kept : (word ++ held mode ++ [c]).countP (quoting kind) ≤ step.kept.countP (quoting kind))
    (unquoted : kind c ≠ .quote) :
    Reading kind step.word step.mode ∧ ∀ read, .word read ∈ step.out → Bare kind read := by
  have last : [c].countP (quoting kind) ≤ step.kept.countP (quoting kind) := by
    rw [List.countP_append] at kept
    omega
  have begins (begun : beginWord kind c = some step) :
      Reading kind step.word step.mode ∧ ∀ read, .word read ∈ step.out → Bare kind read := by
    obtain ⟨reading, none⟩ := beginWord_reading begun last unquoted
    exact ⟨reading, fun read member => absurd member (none read)⟩
  cases mode with
  | start => exact begins stepped
  | great =>
    simp only [next] at stepped
    split at stepped
    · cases stepped
    · exact begins stepped
  | digits =>
    simp only [held, List.append_nil] at kept
    simp only [next] at stepped
    split at stepped
    case h_1 digit =>
      cases stepped
      exact ⟨Bare.append reading (.inr (.inl digit)), by simp⟩
    case h_2 => cases stepped
    case h_3 => exact continueWord_reading stepped kept unquoted reading
  | word =>
    simp only [held, List.append_nil] at kept
    exact continueWord_reading stepped kept unquoted reading
  | _ => exact reading.elim

/-- A text without double quotes that loses no quoting character has bare words. -/
theorem Lossless.bare (lossless : Lossless kind mode word text tokens)
    (reading : Reading kind word mode) (unquoted : ∀ c ∈ text, kind c ≠ .quote) :
    ∀ read, .word read ∈ tokens → Bare kind read := by
  induction text generalizing mode word tokens with
  | nil =>
    have finished := lossless.scanned
    cases mode with
    | start | great =>
      cases finished
      simp
    | digits | word =>
      cases finished
      have bare : Bare kind word := reading
      simpa using bare
    | _ => exact reading.elim
  | cons c text ih =>
    obtain ⟨step, later, stepped, rfl, kept, rest⟩ := lossless.uncons
    obtain ⟨first, others⟩ := List.forall_mem_cons.mp unquoted
    obtain ⟨reading, out⟩ := next_reading reading stepped kept first
    intro read member
    rcases List.mem_append.mp member with now | after
    · exact out read now
    · exact ih rest reading others read after

theorem command_words_mem {cmd : Command α} (parsed : command tokens = some cmd) :
    ∀ word ∈ cmd.words, .word word ∈ tokens := by
  fun_induction command tokens generalizing cmd with
  | case1 =>
    cases parsed
    simp
  | case2 chars tokens ih =>
    obtain ⟨rest, later, rfl⟩ := Option.map_eq_some_iff.mp parsed
    intro word member
    rcases List.mem_cons.mp member with rfl | member
    · exact List.mem_cons_self
    · exact List.mem_cons_of_mem _ (ih later word member)
  | case3 chars tokens ih =>
    obtain ⟨rest, later, rfl⟩ := Option.map_eq_some_iff.mp parsed
    intro word member
    exact List.mem_cons_of_mem _ (List.mem_cons_of_mem _ (ih later word member))
  | case4 => cases parsed

theorem count_join (blank_kind : kind blank = .blank) (words : List (List α)) :
    (join blank words).countP (quoting kind) = words.flatten.countP (quoting kind) := by
  have plain : quoting kind blank = false := by simp [quoting, blank_kind]
  fun_induction join blank words with
  | case1 => rfl
  | case2 word => simp
  | case3 word next words ih => simp [plain, ih]

theorem mem_join : c ∈ join blank words → c = blank ∨ c ∈ words.flatten := by
  fun_induction join blank words with
  | case1 => simp
  | case2 word => exact fun member => .inr (by simpa using member)
  | case3 word next words ih =>
    intro member
    rcases List.mem_append.mp member with here | later
    · simp [here]
    · rcases List.mem_cons.mp later with gap | later
      · exact .inl gap
      · exact (ih later).imp_right fun inside => by
          rw [List.flatten_cons]
          exact List.mem_append_right _ inside

/-- A line is read as the words that it was put together from exactly when they are bare. -/
theorem parse_join_iff (blank_kind : kind blank = .blank) (words : List (List α)) :
    parse kind (join blank words) = some ⟨words, []⟩ ↔ ∀ word ∈ words, Bare kind word := by
  constructor
  · intro parsed
    obtain ⟨tokens, scanned, parsed⟩ := Option.bind_eq_some_iff.mp parsed
    have perm := command_perm parsed
    simp only [List.flatten_nil, List.append_nil] at perm
    have lossless : Lossless kind .start [] (join blank words) tokens := by
      refine ⟨scanned, ?_⟩
      rw [perm.countP_eq]
      simp [held, count_join blank_kind]
    have clean := lossless.clean trivial (by simp)
    have unquoted : ∀ c ∈ join blank words, kind c ≠ .quote := by
      intro c member
      rcases mem_join member with rfl | inside
      · simp [blank_kind]
      · exact clean c (perm.mem_iff.mpr inside)
    intro word member
    exact lossless.bare rfl unquoted word (command_words_mem parsed word member)
  · intro bare
    have read := command_words words ([] : List (Token α))
    rw [List.append_nil] at read
    rw [parse, scan_join blank_kind bare, Option.bind_some, read, command]
    simp

end ShellWords
