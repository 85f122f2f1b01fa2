import Mathlib.Data.List.Count

/-! How a POSIX shell takes a line apart: tokens are recognized one character at a time,
and quoting is removed from the words. The fragment is a simple command on one line with
output redirections. A text with an expansion, a second command, an unquoted pattern or
assignment, or a quotation without an end is not in it, and neither is a dollar that
begins no expansion, which the shell may treat as it likes. -/
namespace ShellWords

inductive Kind where
  | plain
  | digit
  | blank
  | newline
  | great
  /-- A character of `|&;<()`. -/
  | operator
  /-- A character that may be part of a pattern, an assignment or a reserved word. -/
  | special
  | hash
  /-- The dollar and the backquote. -/
  | expansion
  | backslash
  | apostrophe
  | quote
  deriving DecidableEq

/-- The kinds of the characters of ASCII; the codes of the quoting characters are those of
the double quote, the apostrophe and the backquote. -/
def posix (c : Char) : Kind :=
  if c = '\x22' then .quote
  else if c = '\x27' then .apostrophe
  else if c = '\\' then .backslash
  else if c = '$' ∨ c = '\x60' then .expansion
  else if c = ' ' ∨ c = '\t' then .blank
  else if c = '\n' then .newline
  else if c = '>' then .great
  else if c ∈ ['|', '&', ';', '<', '(', ')'] then .operator
  else if c = '#' then .hash
  else if c ∈ ['*', '?', '[', '~', '=', '%', '!', '\x7b', '\x7d'] then .special
  else if c.isDigit then .digit
  else .plain

inductive Token (α : Type*) where
  | word (chars : List α)
  | great
  deriving DecidableEq

/-- Where the text is read: after `great` a greater-than sign would belong to the same
operator, `digits` has read the digits of what may be a descriptor, and `doubleEscape`
has read a backslash inside of double quotes. -/
inductive Mode (α : Type*) where
  | start
  | great
  | digits
  | word
  | escape
  | single
  | double
  | doubleEscape (backslash : α)
  | comment

structure Step (α : Type*) where
  out : List (Token α)
  mode : Mode α
  word : List α

section Scanning
variable {α : Type*} (kind : α → Kind)

/-- A character where no word has begun. -/
def beginWord (c : α) : Option (Step α) :=
  match kind c with
  | .plain => some ⟨[], .word, [c]⟩
  | .digit => some ⟨[], .digits, [c]⟩
  | .blank => some ⟨[], .start, []⟩
  | .great => some ⟨[.great], .great, []⟩
  | .hash => some ⟨[], .comment, []⟩
  | .backslash => some ⟨[], .escape, []⟩
  | .apostrophe => some ⟨[], .single, []⟩
  | .quote => some ⟨[], .double, []⟩
  | .newline | .operator | .special | .expansion => none

def continueWord (word : List α) (c : α) : Option (Step α) :=
  match kind c with
  | .plain | .digit | .hash => some ⟨[], .word, word ++ [c]⟩
  | .blank => some ⟨[.word word], .start, []⟩
  | .great => some ⟨[.word word, .great], .great, []⟩
  | .backslash => some ⟨[], .escape, word⟩
  | .apostrophe => some ⟨[], .single, word⟩
  | .quote => some ⟨[], .double, word⟩
  | .newline | .operator | .special | .expansion => none

/-- What one more character does, the word being read up to there. -/
def next (mode : Mode α) (word : List α) (c : α) : Option (Step α) :=
  match mode with
  | .start => beginWord kind c
  | .great => if kind c = .great then none else beginWord kind c
  | .digits =>
    match kind c with
    | .digit => some ⟨[], .digits, word ++ [c]⟩
    | .great => none
    | _ => continueWord kind word c
  | .word => continueWord kind word c
  | .escape => if kind c = .newline then none else some ⟨[], .word, word ++ [c]⟩
  | .single =>
    if kind c = .apostrophe then some ⟨[], .word, word⟩ else some ⟨[], .single, word ++ [c]⟩
  | .double =>
    match kind c with
    | .quote => some ⟨[], .word, word⟩
    | .backslash => some ⟨[], .doubleEscape c, word⟩
    | .expansion => none
    | _ => some ⟨[], .double, word ++ [c]⟩
  | .doubleEscape backslash =>
    match kind c with
    | .quote | .backslash | .expansion => some ⟨[], .double, word ++ [c]⟩
    | .newline => some ⟨[], .double, word⟩
    | _ => some ⟨[], .double, word ++ [backslash, c]⟩
  | .comment => if kind c = .newline then none else some ⟨[], .comment, []⟩

def finish (mode : Mode α) (word : List α) : Option (List (Token α)) :=
  match mode with
  | .start | .great | .comment => some []
  | .digits | .word => some [.word word]
  | .escape | .single | .double | .doubleEscape _ => none

def scan (mode : Mode α) (word : List α) : List α → Option (List (Token α))
  | [] => finish mode word
  | c :: text =>
    match next kind mode word c with
    | none => none
    | some step => (scan step.mode step.word text).map fun tokens => step.out ++ tokens

/-- The words without their quoting, and the targets of the redirections. -/
structure Command (α : Type*) where
  words : List (List α) := []
  outputs : List (List α) := []
  deriving DecidableEq

def command : List (Token α) → Option (Command α)
  | [] => some {}
  | .word chars :: tokens =>
    (command tokens).map fun cmd => { cmd with words := chars :: cmd.words }
  | .great :: .word chars :: tokens =>
    (command tokens).map fun cmd => { cmd with outputs := chars :: cmd.outputs }
  | .great :: _ => none

def parse (text : List α) : Option (Command α) := (scan kind .start [] text).bind command

/-- A text that stands for itself between double quotes, after a backslash or not. -/
def Literal : (escaped : Bool) → List α → Prop
  | escaped, [] => escaped = false
  | true, c :: text =>
    kind c ≠ .quote ∧ kind c ≠ .backslash ∧ kind c ≠ .expansion ∧ kind c ≠ .newline ∧
      Literal false text
  | false, c :: text =>
    kind c ≠ .quote ∧ kind c ≠ .expansion ∧ Literal (kind c = .backslash) text

/-- Inside of double quotes, possibly with a backslash that is not decided yet. -/
def inside : Option α → Mode α
  | none => .double
  | some backslash => .doubleEscape backslash

variable {kind} {mode : Mode α} {word text rest chars : List α} {c : α} {tokens : List (Token α)}
  {step : Step α} {pending : Option α}

theorem scan_cons (stepped : next kind mode word c = some step) (text : List α) :
    scan kind mode word (c :: text) =
      (scan kind step.mode step.word text).map fun tokens => step.out ++ tokens := by
  rw [scan, stepped]

theorem scan_uncons (scanned : scan kind mode word (c :: text) = some tokens) :
    ∃ step later, next kind mode word c = some step ∧
      scan kind step.mode step.word text = some later ∧ tokens = step.out ++ later := by
  cases stepped : next kind mode word c with
  | none => simp [scan, stepped] at scanned
  | some step =>
    rw [scan_cons stepped] at scanned
    obtain ⟨later, rest, rfl⟩ := Option.map_eq_some_iff.mp scanned
    exact ⟨step, later, rfl, rest, rfl⟩

theorem scan_plain (plain : ∀ c ∈ chars, kind c = .plain) (word rest : List α) :
    scan kind .word word (chars ++ rest) = scan kind .word (word ++ chars) rest := by
  induction chars generalizing word with
  | nil => rw [List.nil_append, List.append_nil]
  | cons c chars ih =>
    obtain ⟨first, later⟩ := List.forall_mem_cons.mp plain
    have stepped : next kind .word word c = some ⟨[], .word, word ++ [c]⟩ := by
      simp only [next, continueWord, first]
    rw [List.cons_append, scan_cons stepped, ih later, List.append_assoc, List.singleton_append]
    simp

theorem scan_literal (literal : Literal kind pending.isSome text) (quote : kind c = .quote)
    (word rest : List α) :
    scan kind (inside pending) word (text ++ c :: rest) =
      scan kind .word (word ++ pending.toList ++ text) rest := by
  induction text generalizing pending word with
  | nil =>
    cases pending with
    | none =>
      have stepped : next kind (inside none) word c = some ⟨[], .word, word⟩ := by
        simp only [inside, next, quote]
      rw [List.nil_append, scan_cons stepped]
      simp
    | some _ => simp [Literal] at literal
  | cons d text ih =>
    cases pending with
    | none =>
      obtain ⟨quoted, expanded, later⟩ := literal
      by_cases escaping : kind d = .backslash
      · have stepped : next kind (inside none) word d = some ⟨[], inside (some d), word⟩ := by
          simp only [inside, next, escaping]
        rw [List.cons_append, scan_cons stepped, ih (by simpa [escaping] using later)]
        simp
      · have stepped : next kind (inside none) word d = some ⟨[], inside none, word ++ [d]⟩ := by
          simp only [inside, next]
        rw [List.cons_append, scan_cons stepped, ih (by simpa [escaping] using later)]
        simp
    | some backslash =>
      obtain ⟨quoted, escaping, expanded, ended, later⟩ := literal
      have stepped : next kind (inside (some backslash)) word d =
          some ⟨[], inside none, word ++ [backslash, d]⟩ := by
        simp only [inside, next]
      rw [List.cons_append, scan_cons stepped, @ih none later]
      simp

theorem scan_quoted (literal : Literal kind false text) (quote : kind c = .quote) (rest : List α) :
    scan kind .double [] (text ++ c :: rest) = scan kind .word text rest := by
  have unescaped : Literal kind (none : Option α).isSome text := literal
  exact scan_literal unescaped quote [] rest

end Scanning
end ShellWords
