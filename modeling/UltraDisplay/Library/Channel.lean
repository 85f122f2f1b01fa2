import Mathlib.Data.List.Perm.Subperm

/-! A network path from one party to another. What is sent is in flight until it is
delivered or lost; it may be delivered late, out of order or twice. How well the
path behaves decides what the deliveries have to do with what was sent. -/
structure Channel (α : Type*) where
  sent : List α := []
  inFlight : List α := []
  delivered : List α := []

namespace Channel
variable {α : Type*}

inductive Move (α : Type*) where
  | send (x : α)
  | deliver (i : Nat)
  | lose (i : Nat)
  | duplicate (i : Nat)

def send (c : Channel α) (x : α) : Channel α :=
  { c with sent := c.sent ++ [x], inFlight := c.inFlight ++ [x] }

def deliver (c : Channel α) (i : Nat) (x : α) : Channel α :=
  { c with inFlight := c.inFlight.eraseIdx i, delivered := c.delivered ++ [x] }

def lose (c : Channel α) (i : Nat) : Channel α := { c with inFlight := c.inFlight.eraseIdx i }

def duplicate (c : Channel α) (x : α) : Channel α := { c with inFlight := c.inFlight ++ [x] }

/-- What the path may do to the datagrams in flight. -/
inductive Discipline where
  | anything
  | once
  | ordered
  | perfect
  deriving DecidableEq

/-- Each discipline excludes more: duplicates, overtaking, losses. -/
def Discipline.Permits : Discipline → Move α → Prop
  | .anything, _ => True
  | .once, .duplicate _ => False
  | .once, _ => True
  | .ordered, .duplicate _ => False
  | .ordered, .deliver i => i = 0
  | .ordered, _ => True
  | .perfect, .duplicate _ | .perfect, .lose _ => False
  | .perfect, .deliver i => i = 0
  | .perfect, .send _ => True

instance : (discipline : Discipline) → (move : Move α) → Decidable (discipline.Permits move)
  | .anything, _ => isTrue trivial
  | .once, .duplicate _ | .ordered, .duplicate _ | .perfect, .duplicate _ | .perfect, .lose _ =>
    isFalse id
  | .once, .send _ | .once, .deliver _ | .once, .lose _ | .ordered, .send _ | .ordered, .lose _
  | .perfect, .send _ => isTrue trivial
  | .ordered, .deliver i | .perfect, .deliver i => inferInstanceAs (Decidable (i = 0))

/-- How a list of received items stands to the list of sent ones. -/
def Discipline.Relates : Discipline → List α → List α → Prop
  | .anything, received, sent => ∀ x ∈ received, x ∈ sent
  | .once, received, sent => received.Subperm sent
  | .ordered, received, sent => received.Sublist sent
  | .perfect, received, sent => received <+: sent

/-- What was delivered and what still may be, against what was sent. -/
def Keeps (discipline : Discipline) (c : Channel α) : Prop :=
  match discipline with
  | .perfect => c.delivered ++ c.inFlight = c.sent
  | .anything | .once | .ordered => discipline.Relates (c.delivered ++ c.inFlight) c.sent

theorem start_keeps (discipline : Discipline) : Keeps discipline ({} : Channel α) := by
  cases discipline with
  | anything => simp [Keeps, Discipline.Relates]
  | once => exact List.Subperm.refl _
  | ordered => exact List.Sublist.refl _
  | perfect => rfl

theorem Keeps.delivered {discipline : Discipline} {c : Channel α} (keeps : Keeps discipline c) :
    discipline.Relates c.delivered c.sent := by
  cases discipline with
  | anything => exact fun x member => keeps x (List.mem_append_left _ member)
  | once => exact (List.sublist_append_left _ _).subperm.trans keeps
  | ordered => exact (List.sublist_append_left _ _).trans keeps
  | perfect => exact ⟨_, keeps⟩

theorem Keeps.genuine {discipline : Discipline} {c : Channel α} (keeps : Keeps discipline c) :
    ∀ x ∈ c.delivered ++ c.inFlight, x ∈ c.sent := by
  intro x member
  cases discipline with
  | anything => exact keeps x member
  | once => exact keeps.subset member
  | ordered => exact keeps.subset member
  | perfect => exact keeps ▸ member

theorem Keeps.send {discipline : Discipline} {c : Channel α} (keeps : Keeps discipline c) (x : α) :
    Keeps discipline (c.send x) := by
  cases discipline with
  | anything =>
    intro y member
    simp only [Channel.send, ← List.append_assoc, List.mem_append, List.mem_singleton] at member ⊢
    exact member.imp_left fun old => keeps y (List.mem_append.mpr old)
  | once =>
    simp only [Keeps, Discipline.Relates, Channel.send, ← List.append_assoc]
    exact (List.subperm_append_right [x]).mpr keeps
  | ordered =>
    simp only [Keeps, Discipline.Relates, Channel.send, ← List.append_assoc]
    exact keeps.append_right [x]
  | perfect =>
    simp only [Keeps, Channel.send, ← List.append_assoc] at keeps ⊢
    rw [keeps]

/-- A delivery moves a datagram to the other end and changes nothing else. -/
theorem deliver_perm {c : Channel α} {i : Nat} {x : α} (found : c.inFlight[i]? = some x) :
    ((c.deliver i x).delivered ++ (c.deliver i x).inFlight).Perm (c.delivered ++ c.inFlight) := by
  obtain ⟨inside, rfl⟩ := List.getElem?_eq_some_iff.mp found
  simp only [deliver, List.append_assoc, List.singleton_append]
  exact (List.getElem_cons_eraseIdx_perm inside).append_left _

theorem deliver_first {c : Channel α} {x : α} (found : c.inFlight[0]? = some x) :
    (c.deliver 0 x).delivered ++ (c.deliver 0 x).inFlight = c.delivered ++ c.inFlight := by
  obtain ⟨rest, flight⟩ := List.head?_eq_some_iff.mp (List.head?_eq_getElem? ▸ found)
  simp [deliver, flight]

theorem Keeps.deliver {discipline : Discipline} {c : Channel α} (keeps : Keeps discipline c)
    {i : Nat} {x : α} (permits : discipline.Permits (.deliver i : Move α))
    (found : c.inFlight[i]? = some x) : Keeps discipline (c.deliver i x) := by
  cases discipline with
  | anything => exact fun y member => keeps y ((deliver_perm found).subset member)
  | once => exact (deliver_perm found).subperm.trans keeps
  | ordered =>
    obtain rfl : i = 0 := permits
    rw [Keeps, deliver_first found]
    exact keeps
  | perfect =>
    obtain rfl : i = 0 := permits
    rw [Keeps, deliver_first found]
    exact keeps

theorem Keeps.lose {discipline : Discipline} {c : Channel α} (keeps : Keeps discipline c) {i : Nat}
    (permits : discipline.Permits (.lose i : Move α)) : Keeps discipline (c.lose i) := by
  have fewer : (c.delivered ++ (c.lose i).inFlight).Sublist (c.delivered ++ c.inFlight) :=
    (List.eraseIdx_sublist _ _).append_left _
  cases discipline with
  | anything => exact fun y member => keeps y (fewer.subset member)
  | once => exact fewer.subperm.trans keeps
  | ordered => exact fewer.trans keeps
  | perfect => exact permits.elim

theorem Keeps.duplicate {discipline : Discipline} {c : Channel α} (keeps : Keeps discipline c)
    {i : Nat} {x : α} (permits : discipline.Permits (.duplicate i : Move α))
    (found : c.inFlight[i]? = some x) : Keeps discipline (c.duplicate x) := by
  cases discipline with
  | anything =>
    intro y member
    have genuine := keeps x (List.mem_append_right _ (List.mem_of_getElem? found))
    simp only [Channel.duplicate, ← List.append_assoc, List.mem_append, List.mem_singleton] at member
    rcases member with old | rfl
    · exact keeps y (List.mem_append.mpr old)
    · exact genuine
  | once | ordered | perfect => exact permits.elim

/-- A path that loses datagrams as well. -/
def Discipline.lossy : Discipline → Discipline
  | .perfect => .ordered
  | other => other

theorem Discipline.lossy_permits_lose (discipline : Discipline) (i : Nat) :
    discipline.lossy.Permits (.lose i : Move α) := by
  cases discipline <;> trivial

/-- Two paths one after the other, the first a lossy one. -/
theorem Discipline.Relates.trans {discipline : Discipline} {received between sent : List α}
    (second : discipline.lossy.Relates received between)
    (first : discipline.lossy.Relates between sent) : discipline.lossy.Relates received sent := by
  cases discipline with
  | anything => exact fun x member => first x (second x member)
  | once => exact List.Subperm.trans second first
  | ordered | perfect => exact List.Sublist.trans second first

theorem Discipline.Relates.sublist {discipline : Discipline} {received passed sent : List α}
    (relates : discipline.Relates received sent) (some_of : passed.Sublist received) :
    discipline.lossy.Relates passed sent := by
  cases discipline with
  | anything => exact fun x member => relates x (some_of.subset member)
  | once => exact some_of.subperm.trans relates
  | ordered => exact some_of.trans relates
  | perfect => exact some_of.trans (List.IsPrefix.sublist relates)

theorem Discipline.Relates.of_prefix {discipline : Discipline} {received passed sent : List α}
    (relates : discipline.Relates received sent) (first : passed <+: received) :
    discipline.Relates passed sent := by
  cases discipline with
  | anything => exact fun x member => relates x (first.subset member)
  | once => exact first.sublist.subperm.trans relates
  | ordered => exact first.sublist.trans relates
  | perfect => exact first.trans relates

/-- Taking an item out of a queue takes what is made of it out of the list of such. -/
theorem filterMap_eraseIdx {β : Type*} {items : List α} {i : Nat} {x : α}
    (found : items[i]? = some x) (f : α → Option β) :
    (items.eraseIdx i).filterMap f =
      if (f x).isSome then (items.filterMap f).eraseIdx ((items.take i).filterMap f).length
      else items.filterMap f := by
  obtain ⟨inside, rfl⟩ := List.getElem?_eq_some_iff.mp found
  have parts : items.filterMap f =
      (items.take i).filterMap f ++ (items[i] :: items.drop (i + 1)).filterMap f := by
    rw [← List.filterMap_append, List.getElem_cons_drop, List.take_append_drop]
  rw [List.eraseIdx_eq_take_drop_succ, List.filterMap_append, parts, List.filterMap_cons]
  cases made : f items[i] with
  | none => rfl
  | some y => simp [List.eraseIdx_append_of_length_le]

end Channel
