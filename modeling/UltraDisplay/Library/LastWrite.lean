import Mathlib.Data.List.Basic

/-! A field that a loop overwrites keeps what the last item that writes it carries. -/
namespace LastWrite
variable {α β σ : Type}

def last (write : α → Option β) (items : List α) : Option β := (items.filterMap write).getLast?

theorem last_cons (write : α → Option β) (item : α) (items : List α) :
    last write (item :: items) = (last write items).or (write item) := by
  simp only [last, List.filterMap_cons]
  cases write item with
  | none => simp
  | some value =>
    rw [List.getLast?_cons]
    cases (items.filterMap write).getLast? with
    | none => rfl
    | some _ => rfl

theorem last_append (write : α → Option β) (first second : List α) :
    last write (first ++ second) = (last write second).or (last write first) := by
  simp only [last, List.filterMap_append, List.getLast?_append]

/-- The last write of a list of groups is that of the last group that has one. -/
theorem last_flatMap (write : α → Option β) (group : γ → List α) (items : List γ) :
    last write (items.flatMap group) = last (fun item => last write (group item)) items := by
  induction items with
  | nil => rfl
  | cons item items ih => rw [List.flatMap_cons, last_append, last_cons, ih]

theorem last_map (write : α → Option β) (part : β → γ) (items : List α) :
    last (fun item => (write item).map part) items = (last write items).map part := by
  induction items with
  | nil => rfl
  | cons item items ih =>
    rw [last_cons, last_cons, ih]
    cases last write items with
    | none => rfl
    | some _ => rfl

theorem field_foldl (field : σ → β) {write : α → Option β} {step : σ → α → σ}
    (writes : ∀ state item, field (step state item) = (write item).getD (field state))
    (items : List α) (state : σ) :
    field (items.foldl step state) = (last write items).getD (field state) := by
  induction items generalizing state with
  | nil => rfl
  | cons item items ih =>
    rw [List.foldl_cons, ih, writes, last_cons]
    cases last write items with
    | none => rfl
    | some _ => rfl

theorem field_foldl_kept (field : σ → β) {step : σ → α → σ}
    (keeps : ∀ state item, field (step state item) = field state) (items : List α) (state : σ) :
    field (items.foldl step state) = field state := by
  induction items generalizing state with
  | nil => rfl
  | cons item items ih => rw [List.foldl_cons, ih, keeps]

theorem flag_foldl (flag : σ → Bool) {raised : α → Bool} {step : σ → α → σ}
    (raises : ∀ state item, flag (step state item) = (flag state || raised item))
    (items : List α) (state : σ) :
    flag (items.foldl step state) = (flag state || items.any raised) := by
  induction items generalizing state with
  | nil => simp
  | cons item items ih => rw [List.foldl_cons, ih, raises, List.any_cons, Bool.or_assoc]

theorem last_of_exists {write : α → Option β} {items : List α} (mem : item ∈ items)
    (carries : write item = some value) : ∃ value, last write items = some value := by
  have written : value ∈ items.filterMap write := List.mem_filterMap.mpr ⟨item, mem, carries⟩
  exact ⟨_, List.getLast?_eq_some_getLast (List.ne_nil_of_mem written)⟩

theorem last_mem {write : α → Option β} {items : List α} (found : last write items = some value) :
    ∃ item ∈ items, write item = some value :=
  List.mem_filterMap.mp (List.mem_of_getLast? found)

theorem last_isSome (write : α → Option β) (items : List α) :
    (last write items).isSome = items.any fun item => (write item).isSome := by
  induction items with
  | nil => rfl
  | cons item items ih => rw [last_cons, Option.isSome_or, ih, List.any_cons, Bool.or_comm]

/-- Items that are related one by one, and then write the same, leave the same. -/
theorem last_congr {write : α → Option β} {write' : γ → Option β} {related : α → γ → Prop}
    (same : ∀ item item', related item item' → write item = write' item')
    (pairs : List.Forall₂ related items items') : last write items = last write' items' := by
  induction pairs with
  | nil => rfl
  | cons here _ ih => rw [last_cons, last_cons, same _ _ here, ih]

end LastWrite
