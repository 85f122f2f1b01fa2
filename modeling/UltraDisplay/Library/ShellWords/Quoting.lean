import Mathlib.Data.List.Count
import UltraDisplay.Library.ShellWords

/-! Which texts stay the same when a command is put together with them between double
quotes. A word can get a double quote only where some other quoting character is
dropped, so that counting these shows that nothing else comes out as the text itself. -/
namespace ShellWords
variable {α : Type*}

/-- A character that is gone where it quotes something, other than a double quote. -/
def quoting (kind : α → Kind) (c : α) : Bool :=
  kind c = .backslash ∨ kind c = .apostrophe ∨ kind c = .hash

def Token.chars : Token α → List α
  | .word chars => chars
  | .great => []

def held : Mode α → List α
  | .doubleEscape backslash => [backslash]
  | _ => []

def Step.kept (step : Step α) : List α :=
  step.out.flatMap Token.chars ++ step.word ++ held step.mode

/-- Modes in which no quoting other than double quotes is under way. -/
def Mode.Unquoted (kind : α → Kind) : Mode α → Prop
  | .escape | .single | .comment => False
  | .doubleEscape backslash => kind backslash = .backslash
  | .start | .great | .digits | .word | .double => True

variable {kind : α → Kind} {mode : Mode α} {word text rest chars : List α} {c : α}
  {tokens : List (Token α)} {step : Step α} {pending : Option α}

theorem beginWord_count (begun : beginWord kind c = some step) :
    step.kept.countP (quoting kind) ≤ [c].countP (quoting kind) := by
  cases same : kind c <;> simp only [beginWord, same] at begun <;> cases begun <;>
    simp [Step.kept, held, Token.chars]

theorem continueWord_count (continued : continueWord kind word c = some step) :
    step.kept.countP (quoting kind) ≤ (word ++ [c]).countP (quoting kind) := by
  cases same : kind c <;> simp only [continueWord, same] at continued <;> cases continued <;>
    simp [Step.kept, held, Token.chars]

/-- A step makes no character that quotes. -/
theorem next_count (stepped : next kind mode word c = some step) :
    step.kept.countP (quoting kind) ≤ (word ++ held mode ++ [c]).countP (quoting kind) := by
  have longer (front : List α) : (front ++ [c]).countP (quoting kind) =
      front.countP (quoting kind) + [c].countP (quoting kind) := List.countP_append
  cases mode with
  | start =>
    have begun := beginWord_count stepped
    rw [longer]
    omega
  | great =>
    simp only [next] at stepped
    split at stepped
    · cases stepped
    · have begun := beginWord_count stepped
      rw [longer]
      omega
  | digits =>
    simp only [held, List.append_nil]
    simp only [next] at stepped
    split at stepped
    · cases stepped
      simp [Step.kept, held]
    · cases stepped
    · exact continueWord_count stepped
  | word =>
    simp only [held, List.append_nil]
    exact continueWord_count stepped
  | escape =>
    simp only [next] at stepped
    split at stepped <;> cases stepped
    simp [Step.kept, held]
  | single =>
    simp only [next] at stepped
    split at stepped <;> cases stepped <;> simp [Step.kept, held]
  | double =>
    simp only [next] at stepped
    split at stepped <;> cases stepped <;> simp [Step.kept, held]
  | doubleEscape backslash =>
    simp only [next] at stepped
    split at stepped <;> cases stepped <;> simp [Step.kept, held, List.countP_cons]
  | comment =>
    simp only [next] at stepped
    split at stepped <;> cases stepped
    simp [Step.kept, held]

theorem finish_count {tokens : List (Token α)} (finished : finish mode word = some tokens) :
    (tokens.flatMap Token.chars).countP (quoting kind) ≤
      (word ++ held mode).countP (quoting kind) := by
  cases mode <;> cases finished <;> simp [Token.chars]

theorem scan_count (scanned : scan kind mode word text = some tokens) :
    (tokens.flatMap Token.chars).countP (quoting kind) ≤
      (word ++ held mode ++ text).countP (quoting kind) := by
  induction text generalizing mode word tokens with
  | nil =>
    rw [List.append_nil]
    exact finish_count scanned
  | cons c text ih =>
    obtain ⟨step, later, stepped, rest, rfl⟩ := scan_uncons scanned
    have first := next_count stepped
    have last := ih rest
    simp only [Step.kept, List.flatMap_append, List.countP_append, List.countP_cons,
      List.countP_nil] at first last ⊢
    omega

/-- What a step that drops no quoting character leaves. -/
structure Step.Clean (kind : α → Kind) (step : Step α) : Prop where
  mode : step.mode.Unquoted kind
  word : ∀ d ∈ step.word, kind d ≠ .quote
  out : ∀ d ∈ step.out.flatMap Token.chars, kind d ≠ .quote

theorem beginWord_clean (begun : beginWord kind c = some step)
    (kept : [c].countP (quoting kind) ≤ step.kept.countP (quoting kind)) : step.Clean kind := by
  cases same : kind c <;> simp only [beginWord, same] at begun <;> cases begun <;>
    simp [Step.kept, held, quoting, same] at kept <;>
    constructor <;> simp [Mode.Unquoted, Token.chars, same]

theorem append_clean (clean : ∀ d ∈ word, kind d ≠ .quote) (last : ∀ d ∈ chars, kind d ≠ .quote) :
    ∀ d ∈ word ++ chars, kind d ≠ .quote :=
  List.forall_mem_append.mpr ⟨clean, last⟩

theorem continueWord_clean (continued : continueWord kind word c = some step)
    (kept : (word ++ [c]).countP (quoting kind) ≤ step.kept.countP (quoting kind))
    (clean : ∀ d ∈ word, kind d ≠ .quote) : step.Clean kind := by
  cases same : kind c <;> simp only [continueWord, same] at continued <;> cases continued
  case plain => exact ⟨trivial, append_clean clean (by simp [same]), by simp⟩
  case digit => exact ⟨trivial, append_clean clean (by simp [same]), by simp⟩
  case hash => exact ⟨trivial, append_clean clean (by simp [same]), by simp⟩
  case blank => exact ⟨trivial, by simp, by simpa [Token.chars] using clean⟩
  case great => exact ⟨trivial, by simp, by simpa [Token.chars] using clean⟩
  case backslash =>
    have dropped : quoting kind c = true := by simp [quoting, same]
    simp only [Step.kept, held, List.flatMap_nil, List.countP_append, List.countP_cons,
      List.countP_nil, dropped, if_true] at kept
    omega
  case apostrophe =>
    have dropped : quoting kind c = true := by simp [quoting, same]
    simp only [Step.kept, held, List.flatMap_nil, List.countP_append, List.countP_cons,
      List.countP_nil, dropped, if_true] at kept
    omega
  case quote => exact ⟨trivial, clean, by simp⟩

theorem next_clean (unquoted : mode.Unquoted kind) (stepped : next kind mode word c = some step)
    (kept : (word ++ held mode ++ [c]).countP (quoting kind) ≤ step.kept.countP (quoting kind))
    (clean : ∀ d ∈ word, kind d ≠ .quote) : step.Clean kind := by
  have last : [c].countP (quoting kind) ≤ step.kept.countP (quoting kind) := by
    rw [List.countP_append] at kept
    omega
  cases mode with
  | start => exact beginWord_clean stepped last
  | great =>
    simp only [next] at stepped
    split at stepped
    · cases stepped
    · exact beginWord_clean stepped last
  | digits =>
    simp only [held, List.append_nil] at kept
    simp only [next] at stepped
    split at stepped
    case h_1 digit =>
      cases stepped
      exact ⟨trivial, append_clean clean (by simp [digit]), by simp⟩
    case h_2 => cases stepped
    case h_3 => exact continueWord_clean stepped kept clean
  | word =>
    simp only [held, List.append_nil] at kept
    exact continueWord_clean stepped kept clean
  | escape => exact unquoted.elim
  | single => exact unquoted.elim
  | comment => exact unquoted.elim
  | double =>
    simp only [next] at stepped
    split at stepped <;> cases stepped
    case h_1 => exact ⟨trivial, clean, by simp⟩
    case h_2 escaping => exact ⟨escaping, clean, by simp⟩
    case h_4 unquoted _ _ =>
      exact ⟨trivial, append_clean clean (by simpa using unquoted), by simp⟩
  | doubleEscape backslash =>
    have escaping : quoting kind backslash = true := by
      have same : kind backslash = .backslash := unquoted
      simp [quoting, same]
    have unquotes : kind backslash ≠ .quote := by
      have same : kind backslash = .backslash := unquoted
      simp [same]
    simp only [next] at stepped
    split at stepped <;> cases stepped
    case h_5 other _ _ _ =>
      exact ⟨trivial, append_clean clean (by simpa using ⟨unquotes, other⟩), by simp⟩
    -- in the other cases the backslash is dropped
    all_goals
      simp only [Step.kept, held, List.flatMap_nil, List.countP_append, List.countP_cons,
        List.countP_nil, escaping, if_true] at kept
      omega

/-- The text is taken apart into the tokens, and no quoting character is dropped. -/
structure Lossless (kind : α → Kind) (mode : Mode α) (word text : List α)
    (tokens : List (Token α)) : Prop where
  scanned : scan kind mode word text = some tokens
  kept : (word ++ held mode ++ text).countP (quoting kind) ≤
    (tokens.flatMap Token.chars).countP (quoting kind)

theorem Lossless.uncons (lossless : Lossless kind mode word (c :: text) tokens) :
    ∃ step later, next kind mode word c = some step ∧ tokens = step.out ++ later ∧
      (word ++ held mode ++ [c]).countP (quoting kind) ≤ step.kept.countP (quoting kind) ∧
      Lossless kind step.mode step.word text later := by
  obtain ⟨scanned, kept⟩ := lossless
  obtain ⟨step, later, stepped, rest, rfl⟩ := scan_uncons scanned
  have first := next_count stepped
  have last := scan_count rest
  simp only [Step.kept, List.flatMap_append, List.countP_append, List.countP_cons,
    List.countP_nil] at kept first last
  refine ⟨step, later, stepped, rfl, ?_, rest, ?_⟩
  · simp only [Step.kept, List.countP_append, List.countP_cons, List.countP_nil]
    omega
  · simp only [List.countP_append]
    omega

/-- Then no double quote is in a word. -/
theorem Lossless.clean (lossless : Lossless kind mode word text tokens)
    (unquoted : mode.Unquoted kind) (clean : ∀ d ∈ word, kind d ≠ .quote) :
    ∀ d ∈ tokens.flatMap Token.chars, kind d ≠ .quote := by
  induction text generalizing mode word tokens with
  | nil =>
    have finished := lossless.scanned
    cases mode <;> cases finished <;> simp [Token.chars] <;> exact clean
  | cons c text ih =>
    obtain ⟨step, later, stepped, rfl, kept, rest⟩ := lossless.uncons
    obtain ⟨mode_unquoted, word_clean, out_clean⟩ := next_clean unquoted stepped kept clean
    rw [List.flatMap_append]
    exact append_clean out_clean (ih rest mode_unquoted word_clean)

/-- A text without double quotes, up to one that has to end it, is literal. -/
theorem Lossless.literal (lossless : Lossless kind (inside pending) word (text ++ c :: rest) tokens)
    (quote : kind c = .quote) (clean : ∀ d ∈ text, kind d ≠ .quote)
    (escaping : ∀ backslash ∈ pending, kind backslash = .backslash) :
    Literal kind pending.isSome text ∧
      Lossless kind .word (word ++ pending.toList ++ text) rest tokens := by
  induction text generalizing pending word tokens with
  | nil =>
    obtain ⟨step, later, stepped, rfl, kept, after⟩ := lossless.uncons
    cases pending with
    | none =>
      simp only [inside, next, quote, Option.some.injEq] at stepped
      subst stepped
      exact ⟨rfl, by simpa using after⟩
    | some backslash =>
      simp only [inside, next, quote, Option.some.injEq] at stepped
      subst stepped
      have dropped : quoting kind backslash = true := by simp [quoting, escaping]
      simp only [Step.kept, held, inside, List.flatMap_nil, List.countP_append, List.countP_cons,
        List.countP_nil, dropped, if_true] at kept
      omega
  | cons d text ih =>
    obtain ⟨step, later, stepped, rfl, kept, after⟩ := lossless.uncons
    obtain ⟨first, later_clean⟩ := List.forall_mem_cons.mp clean
    cases pending with
    | none =>
      simp only [inside, next] at stepped
      split at stepped
      case h_1 quoted => exact absurd quoted first
      case h_2 escapes =>
        cases stepped
        obtain ⟨literal, ended⟩ := @ih _ _ (some d) after later_clean (by simpa using escapes)
        exact ⟨⟨first, by simp [escapes], by simpa [escapes] using literal⟩, by simpa using ended⟩
      case h_3 => cases stepped
      case h_4 ordinary expands =>
        cases stepped
        obtain ⟨literal, ended⟩ := @ih _ _ none after later_clean (by simp)
        rw [Option.isSome_none, ← decide_eq_false ordinary] at literal
        exact ⟨⟨first, expands, literal⟩, by simpa using ended⟩
    | some backslash =>
      have dropped : quoting kind backslash = true := by simp [quoting, escaping]
      simp only [inside, next] at stepped
      split at stepped
      case h_5 unquoted unescaped unexpanded continues =>
        cases stepped
        obtain ⟨literal, ended⟩ := @ih _ _ none after later_clean (by simp)
        exact ⟨⟨unquoted, unescaped, unexpanded, continues, literal⟩, by simpa using ended⟩
      -- otherwise the backslash is dropped
      all_goals
        cases stepped
        simp only [Step.kept, held, inside, List.flatMap_nil, List.countP_append, List.countP_cons,
          List.countP_nil, dropped, if_true] at kept
        omega

theorem command_perm {cmd : Command α} (parsed : command tokens = some cmd) :
    (tokens.flatMap Token.chars).Perm (cmd.words.flatten ++ cmd.outputs.flatten) := by
  fun_induction command tokens generalizing cmd with
  | case1 =>
    cases parsed
    exact .refl _
  | case2 chars tokens ih =>
    obtain ⟨rest, later, rfl⟩ := Option.map_eq_some_iff.mp parsed
    simpa [Token.chars] using (ih later).append_left chars
  | case3 chars tokens ih =>
    obtain ⟨rest, later, rfl⟩ := Option.map_eq_some_iff.mp parsed
    have moved := ((ih later).append_left chars).trans (List.perm_append_comm_assoc _ _ _)
    simpa [Token.chars] using moved
  | case4 => cases parsed

theorem command_words (words : List (List α)) (tokens : List (Token α)) :
    command (words.map .word ++ tokens) =
      (command tokens).map fun cmd => { cmd with words := words ++ cmd.words } := by
  induction words with
  | nil => simp
  | cons word words ih =>
    rw [List.map_cons, List.cons_append, command, ih, Option.map_map]
    rfl

/-- A command with its output redirected: the name, arguments between double quotes, and
the target. -/
structure Template (kind : α → Kind) where
  name : List α
  target : List α
  blank : α
  quote : α
  great : α
  name_plain : ∀ c ∈ name, kind c = .plain
  name_some : name ≠ []
  target_plain : ∀ c ∈ target, kind c = .plain
  target_some : target ≠ []
  blank_kind : kind blank = .blank
  quote_kind : kind quote = .quote
  great_kind : kind great = .great

namespace Template
variable (template : Template kind) {args : List (List α)}

def quoteAll (args : List (List α)) : List α :=
  args.flatMap fun arg => template.blank :: template.quote :: (arg ++ [template.quote])

def redirect : List α := template.blank :: template.great :: template.blank :: template.target

def line (args : List (List α)) : List α :=
  template.name ++ (template.quoteAll args ++ template.redirect)

theorem quoteAll_cons (arg : List α) (args : List (List α)) (rest : List α) :
    template.quoteAll (arg :: args) ++ rest = template.blank :: template.quote ::
      (arg ++ template.quote :: (template.quoteAll args ++ rest)) := by
  simp [quoteAll]

theorem next_blank (word : List α) :
    next kind .word word template.blank = some ⟨[.word word], .start, []⟩ := by
  simp only [next, continueWord, template.blank_kind]

theorem next_quote : next kind .start [] template.quote = some ⟨[], .double, []⟩ := by
  simp only [next, beginWord, template.quote_kind]

theorem next_great : next kind .start [] template.great = some ⟨[.great], .great, []⟩ := by
  simp only [next, beginWord, template.great_kind]

theorem next_gap : next kind .great [] template.blank = some ⟨[], .start, []⟩ := by
  simp [next, beginWord, template.blank_kind]

theorem scan_word (plain : ∀ c ∈ chars, kind c = .plain) (nonempty : chars ≠ []) (rest : List α) :
    scan kind .start [] (chars ++ rest) = scan kind .word chars rest := by
  obtain ⟨c, chars, rfl⟩ := List.exists_cons_of_ne_nil nonempty
  obtain ⟨first, later⟩ := List.forall_mem_cons.mp plain
  have stepped : next kind .start [] c = some ⟨[], .word, [c]⟩ := by
    simp only [next, beginWord, first]
  rw [List.cons_append, scan_cons stepped, scan_plain later]
  simp

theorem scan_redirect (word : List α) :
    scan kind .word word template.redirect = some [.word word, .great, .word template.target] := by
  have named := scan_word template.target_plain template.target_some []
  rw [List.append_nil] at named
  rw [redirect, scan_cons (template.next_blank word), scan_cons template.next_great,
    scan_cons template.next_gap, named]
  rfl

theorem scan_args (literal : ∀ arg ∈ args, Literal kind false arg) (word : List α) :
    scan kind .word word (template.quoteAll args ++ template.redirect) =
      some (.word word :: (args.map .word ++ [.great, .word template.target])) := by
  induction args generalizing word with
  | nil => exact template.scan_redirect word
  | cons arg args ih =>
    obtain ⟨first, later⟩ := List.forall_mem_cons.mp literal
    rw [quoteAll_cons, scan_cons (template.next_blank word), scan_cons template.next_quote,
      scan_quoted first template.quote_kind, ih later]
    rfl

/-- If nothing of quoted arguments without double quotes is lost, they are literal. -/
theorem literal_of_lossless
    (lossless : Lossless kind .word word (template.quoteAll args ++ rest) tokens)
    (clean : ∀ arg ∈ args, ∀ d ∈ arg, kind d ≠ .quote) : ∀ arg ∈ args, Literal kind false arg := by
  induction args generalizing word tokens with
  | nil => exact fun _ member => absurd member List.not_mem_nil
  | cons arg args ih =>
    obtain ⟨first, later⟩ := List.forall_mem_cons.mp clean
    rw [quoteAll_cons] at lossless
    obtain ⟨step, tokens, stepped, rfl, _, opening⟩ := lossless.uncons
    cases (template.next_blank word).symm.trans stepped
    obtain ⟨step, tokens, stepped, rfl, _, quoted⟩ := opening.uncons
    cases template.next_quote.symm.trans stepped
    have unescaped : Lossless kind (inside none) []
        (arg ++ template.quote :: (template.quoteAll args ++ rest)) tokens := quoted
    obtain ⟨literal, ended⟩ := unescaped.literal template.quote_kind first (by simp)
    exact List.forall_mem_cons.mpr ⟨literal, ih ended later⟩

theorem count_plain (plain : ∀ c ∈ chars, kind c = .plain) : chars.countP (quoting kind) = 0 := by
  rw [List.countP_eq_zero]
  intro c member
  simp [quoting, plain c member]

theorem count_line (args : List (List α)) :
    (template.line args).countP (quoting kind) = args.flatten.countP (quoting kind) := by
  have blank : quoting kind template.blank = false := by simp [quoting, template.blank_kind]
  have quote : quoting kind template.quote = false := by simp [quoting, template.quote_kind]
  have great : quoting kind template.great = false := by simp [quoting, template.great_kind]
  have quoted : (template.quoteAll args).countP (quoting kind) =
      args.flatten.countP (quoting kind) := by
    induction args with
    | nil => rfl
    | cons arg args ih =>
      have cons := template.quoteAll_cons arg args []
      rw [List.append_nil, List.append_nil] at cons
      simp [cons, blank, quote, ih]
  simp [line, redirect, quoted, blank, great, count_plain template.name_plain,
    count_plain template.target_plain]

/-- The command has the arguments that were put into it precisely when they are literal. -/
theorem parse_line_iff (args : List (List α)) :
    parse kind (template.line args) = some ⟨template.name :: args, [template.target]⟩ ↔
      ∀ arg ∈ args, Literal kind false arg := by
  have named (args : List (List α)) := scan_word template.name_plain template.name_some
    (template.quoteAll args ++ template.redirect)
  constructor
  · intro parsed
    obtain ⟨tokens, scanned, parsed⟩ := Option.bind_eq_some_iff.mp parsed
    have perm := command_perm parsed
    have lossless : Lossless kind .start [] (template.line args) tokens := by
      refine ⟨scanned, ?_⟩
      rw [perm.countP_eq]
      simp [held, count_line, count_plain template.name_plain, count_plain template.target_plain]
    have clean := lossless.clean trivial (by simp)
    have after : Lossless kind .word template.name (template.quoteAll args ++ template.redirect)
        tokens :=
      ⟨(named args).symm.trans scanned, by simpa [held, line] using lossless.kept⟩
    refine template.literal_of_lossless after ?_
    intro arg arg_mem d member
    refine clean d (perm.mem_iff.mpr ?_)
    simp only [List.flatten_cons, List.mem_append, List.mem_flatten]
    exact Or.inl (Or.inr ⟨arg, arg_mem, member⟩)
  · intro literal
    rw [parse, line, named args, template.scan_args literal, Option.bind_some, command,
      command_words]
    simp [command]

end Template
end ShellWords
