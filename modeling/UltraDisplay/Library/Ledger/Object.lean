import UltraDisplay.Library.Ledger

/-! Objects that calls of an initializer fill with resources and a destructor empties. The
calls are numbered, and so is what they acquire. -/
namespace Ledger
variable {S A R : Type*} [DecidableEq R]

structure Object (S A R : Type*) where
  init : S → Nat → A → S × List (Entry R)
  destructor : S → List (Entry R)

namespace Object

def life (object : Object S A R) (s : S) (call : Nat) : List A → List (Entry R)
  | [] => object.destructor s
  | answers :: rest =>
    (object.init s call answers).2 ++ object.life (object.init s call answers).1 (call + 1) rest

/-- No call follows the first one that gets something, and that one goes well. -/
def Lone (gets : A → Bool) (idle : Prop) (well : A → Prop) : List A → Prop
  | [] => idle
  | answers :: rest => if gets answers then rest = [] ∧ well answers else Lone gets idle well rest

variable {object : Object S A R} {fresh s : S} {gets : A → Bool} {key : Nat → R}
  {owner : S → Option Nat} {n m : Nat} {answers next : A} {rest : List A}

/-- A call that `gets` something starts with the resource `key` of its number, and the
object knows the last one only. -/
structure Forgets (object : Object S A R) (fresh : S) (gets : A → Bool) (key : Nat → R)
    (owner : S → Option Nat) : Prop where
  acquires : ∀ s n answers, gets answers = true →
    ∃ more, (object.init s n answers).2 = .acquire (key n) :: more
  replaces : ∀ s n answers m, owner (object.init s n answers).1 = some m → m = n
  keeps : ∀ s n answers resource, .release resource ∉ (object.init s n answers).2
  releases : ∀ s n, .release (key n) ∈ object.destructor s → owner s = some n
  idles : ∀ n answers, gets answers = false → object.init fresh n answers = (fresh, [])

namespace Forgets

omit [DecidableEq R] in
/-- What the object has lost is not released. -/
theorem life_keeps (forgets : Forgets object fresh gets key owner) (lost : owner s ≠ some m)
    (earlier : m < n) (calls : List A) : .release (key m) ∉ object.life s n calls := by
  induction calls generalizing s n with
  | nil => exact fun released => lost (forgets.releases s m released)
  | cons answers rest ih =>
    have later : owner (object.init s n answers).1 ≠ some m := by
      intro same
      have replaced := forgets.replaces s n answers m same
      omega
    rw [life, List.mem_append, not_or]
    exact ⟨forgets.keeps s n answers _, ih later (by omega)⟩

theorem not_leaves (forgets : Forgets object fresh gets key owner) (got : gets answers = true) :
    ¬ Leaves ∅ (object.life s n (answers :: next :: rest)) ∅ := by
  intro leaves
  obtain ⟨more, trace⟩ := forgets.acquires s n answers got
  have unreleased := forgets.keeps s n answers (key n)
  have unreleased' := forgets.keeps (object.init s n answers).1 (n + 1) next (key n)
  have lost : owner (object.init (object.init s n answers).1 (n + 1) next).1 ≠ some n := by
    intro same
    have replaced := forgets.replaces _ (n + 1) next n same
    omega
  have later := forgets.life_keeps lost (Nat.lt_succ_of_lt n.lt_succ_self) rest
  rw [trace] at unreleased
  rw [life, trace, List.cons_append] at leaves
  refine Finset.notMem_empty _ (leaves.acquired ?_)
  rw [life, List.mem_append, List.mem_append, not_or, not_or]
  exact ⟨fun mem => unreleased (List.mem_cons_of_mem _ mem), unreleased', later⟩

/-- A life without a call that gets anything, and one with a single such call, decide all
the others. -/
theorem leaves_iff (forgets : Forgets object fresh gets key owner) {idle : Prop}
    {well : A → Prop} (unused : Leaves ∅ (object.destructor fresh) ∅ ↔ idle)
    (once : ∀ n answers, gets answers = true →
      (Leaves ∅ (object.life fresh n [answers]) ∅ ↔ well answers)) (calls : List A) :
    Leaves ∅ (object.life fresh n calls) ∅ ↔ Lone gets idle well calls := by
  induction calls generalizing n with
  | nil => exact unused
  | cons answers rest ih =>
    rw [Lone]
    split
    case isFalse failed =>
      rw [life, forgets.idles n answers (by simpa using failed)]
      exact ih
    case isTrue got =>
      cases rest with
      | nil => simpa using once n answers got
      | cons next rest => exact iff_of_false (forgets.not_leaves got) (by simp)

end Forgets
end Object
end Ledger
