import Mathlib.Data.List.Pairwise
import Mathlib.Data.Multiset.AddSub
import Mathlib.Logic.Relation
import Mathlib.Order.Bounds.Basic

/-! Repeated replacement of two elements that meet by their join. When meeting
survives growth, every order of the replacements ends in the same multiset, and
each element of it is the least upper bound of what it has taken in. -/
namespace Coalescing
open Relation
variable {α : Type*} [SemilatticeSup α] {Meets : α → α → Prop} {s t u : Multiset α}

/-- Two elements that meet still do after either has grown. -/
structure Persistent (Meets : α → α → Prop) : Prop where
  symm : ∀ a b, Meets a b → Meets b a
  grow : ∀ a b c, Meets a c → a ≤ b → Meets b c

inductive Step (Meets : α → α → Prop) : Multiset α → Multiset α → Prop
  | join (a b : α) (rest : Multiset α) (meet : Meets a b) :
      Step Meets (a ::ₘ b ::ₘ rest) ((a ⊔ b) ::ₘ rest)

/-- Some sequence of joins leads from the first multiset to the second. -/
abbrev Joins (Meets : α → α → Prop) : Multiset α → Multiset α → Prop :=
  ReflTransGen (Step Meets)

def Settled (Meets : α → α → Prop) (s : Multiset α) : Prop :=
  ∀ t, ¬ Step Meets s t

theorem Step.cons (c : α) (step : Step Meets s t) : Step Meets (c ::ₘ s) (c ::ₘ t) := by
  cases step with
  | join a b rest meet =>
    rw [Multiset.cons_swap c a, Multiset.cons_swap c b, Multiset.cons_swap c (a ⊔ b)]
    exact .join a b (c ::ₘ rest) meet

theorem Joins.cons (c : α) (joins : Joins Meets s t) : Joins Meets (c ::ₘ s) (c ::ₘ t) :=
  ReflTransGen.lift (fun items => c ::ₘ items) (fun _ _ step => step.cons c) _ _ joins

theorem Joins.add (extra : Multiset α) (joins : Joins Meets s t) :
    Joins Meets (extra + s) (extra + t) := by
  induction extra using Multiset.induction_on with
  | empty => simpa only [Multiset.zero_add] using joins
  | cons c extra ih =>
    rw [Multiset.cons_add, Multiset.cons_add]
    exact Joins.cons c ih

/-- Two joins that share the element `b` lead on to the join of all three. -/
theorem shared_element (persistent : Persistent Meets) (left : Meets a b) (right : Meets b c)
    (rest : Multiset α) : ∃ v, Step Meets ((a ⊔ b) ::ₘ c ::ₘ rest) v ∧
      Step Meets ((b ⊔ c) ::ₘ a ::ₘ rest) v := by
  refine ⟨(a ⊔ b ⊔ c) ::ₘ rest, ?_, ?_⟩
  · exact .join _ _ _ (persistent.grow b _ c right le_sup_right)
  · have meet : Meets (b ⊔ c) a := persistent.grow b _ a (persistent.symm a b left) le_sup_left
    have joined : b ⊔ c ⊔ a = a ⊔ b ⊔ c := by rw [sup_comm, sup_assoc]
    rw [← joined]
    exact .join _ _ _ meet

theorem diamond (persistent : Persistent Meets) (first : Step Meets s t) (second : Step Meets s u) :
    t = u ∨ ∃ v, Step Meets t v ∧ Step Meets u v := by
  obtain ⟨a, b, rest, left⟩ := first
  generalize both : a ::ₘ b ::ₘ rest = s at second
  obtain ⟨c, d, rest', right⟩ := second
  have left' := persistent.symm a b left
  have right' := persistent.symm c d right
  rcases Multiset.cons_eq_cons.mp both with ⟨rfl, tails⟩ | ⟨_, cs, first, second⟩
  · rcases Multiset.cons_eq_cons.mp tails with ⟨rfl, rfl⟩ | ⟨_, cs, rfl, rfl⟩
    · exact Or.inl rfl
    · rw [sup_comm a b]
      exact Or.inr (shared_element persistent left' right cs)
  · rcases Multiset.cons_eq_cons.mp first with ⟨rfl, rfl⟩ | ⟨_, es, rfl, rfl⟩
    · rcases Multiset.cons_eq_cons.mp second with ⟨rfl, rfl⟩ | ⟨_, es, rfl, rfl⟩
      · exact Or.inl (by rw [sup_comm])
      · exact Or.inr (shared_element persistent left right es)
    · rcases Multiset.cons_eq_cons.mp second with ⟨rfl, rfl⟩ | ⟨_, fs, rfl, others⟩
      · rw [sup_comm d b, sup_comm c d]
        exact Or.inr (shared_element persistent left' right' es)
      · rcases Multiset.cons_eq_cons.mp others with ⟨rfl, rfl⟩ | ⟨_, gs, rfl, rfl⟩
        · rw [sup_comm c b]
          exact Or.inr (shared_element persistent left right' es)
        · refine Or.inr ⟨(a ⊔ b) ::ₘ (c ⊔ d) ::ₘ gs, ?_, ?_⟩
          · exact (Step.join c d gs right).cons (a ⊔ b)
          · rw [Multiset.cons_swap (a ⊔ b)]
            exact (Step.join a b gs left).cons (c ⊔ d)

theorem Settled.unmoved (settled : Settled Meets s) (joins : Joins Meets s t) : t = s := by
  rcases ReflTransGen.cases_head joins with same | ⟨u, step, _⟩
  · exact same.symm
  · exact absurd step (settled u)

/-- All complete sequences of joins from one multiset end alike. -/
theorem settled_unique (persistent : Persistent Meets) (first : Joins Meets s t)
    (second : Joins Meets s u) (settled : Settled Meets t) (settled' : Settled Meets u) : t = u := by
  have close : ∀ a b c, Step Meets a b → Step Meets a c →
      ∃ d, ReflGen (Step Meets) b d ∧ ReflTransGen (Step Meets) c d := by
    intro a b c toB toC
    rcases diamond persistent toB toC with rfl | ⟨d, fromB, fromC⟩
    · exact ⟨b, .refl, .refl⟩
    · exact ⟨d, .single fromB, .single fromC⟩
  obtain ⟨v, fromT, fromU⟩ := church_rosser close first second
  exact (settled.unmoved fromT).symm.trans (settled'.unmoved fromU)

theorem settled_of_pairwise (persistent : Persistent Meets) {items : List α}
    (apart : items.Pairwise fun a b => ¬ Meets a b) : Settled Meets (items : Multiset α) := by
  intro t step
  generalize same : (items : Multiset α) = s at step
  obtain ⟨a, b, rest, meet⟩ := step
  induction rest using Quotient.inductionOn with
  | h rest =>
    have perm : items.Perm (a :: b :: rest) := Multiset.coe_eq_coe.mp same
    have symmetric : ∀ x y, ¬ Meets x y → ¬ Meets y x :=
      fun x y missed meet => missed (persistent.symm y x meet)
    have apart' := (perm.pairwise_iff (symmetric _ _)).mp apart
    exact (List.pairwise_cons.mp apart').1 b (by simp) meet

/-- `t` covers `s`, and each of its elements is the least upper bound of the
elements of `s` below it, of which there is one. -/
structure Gathers (s t : Multiset α) : Prop where
  covers : ∀ x ∈ s, ∃ m ∈ t, x ≤ m
  tight : ∀ m ∈ t, IsLUB {x | x ∈ s ∧ x ≤ m} m
  nonempty : ∀ m ∈ t, ∃ x ∈ s, x ≤ m

theorem Gathers.refl (s : Multiset α) : Gathers s s := by
  refine ⟨fun x member => ⟨x, member, le_rfl⟩, ?_, fun m member => ⟨m, member, le_rfl⟩⟩
  intro m member
  exact IsGreatest.isLUB ⟨⟨member, le_rfl⟩, fun x below => below.2⟩

theorem Gathers.step (gathers : Gathers s t) (step : Step Meets t u) : Gathers s u := by
  obtain ⟨a, b, rest, _⟩ := step
  have tightA := gathers.tight a (by simp)
  have tightB := gathers.tight b (by simp)
  constructor
  · intro x member
    obtain ⟨m, inT, below⟩ := gathers.covers x member
    simp only [Multiset.mem_cons] at inT
    rcases inT with rfl | rfl | inRest
    · exact ⟨m ⊔ b, by simp, le_sup_of_le_left below⟩
    · exact ⟨a ⊔ m, by simp, le_sup_of_le_right below⟩
    · exact ⟨m, by simp [inRest], below⟩
  · intro m member
    rcases Multiset.mem_cons.mp member with rfl | inRest
    · refine ⟨fun x below => below.2, ?_⟩
      intro bound upper
      apply sup_le
      · exact tightA.2 fun x below => upper ⟨below.1, le_sup_of_le_left below.2⟩
      · exact tightB.2 fun x below => upper ⟨below.1, le_sup_of_le_right below.2⟩
    · exact gathers.tight m (by simp [inRest])
  · intro m member
    rcases Multiset.mem_cons.mp member with rfl | inRest
    · obtain ⟨x, inS, below⟩ := gathers.nonempty a (by simp)
      exact ⟨x, inS, le_sup_of_le_left below⟩
    · exact gathers.nonempty m (by simp [inRest])

theorem gathers_of_joins (joins : Joins Meets s t) : Gathers s t := by
  induction joins with
  | refl => exact Gathers.refl s
  | tail _ step ih => exact ih.step step

/-- Joins stay below items that cover the start and do not meet one another: two
elements that meet lie below the same item. -/
theorem Step.below {items : List α} (persistent : Persistent Meets)
    (apart : items.Pairwise fun a b => ¬ Meets a b) (covered : ∀ x ∈ s, ∃ m ∈ items, x ≤ m)
    (step : Step Meets s t) : ∀ x ∈ t, ∃ m ∈ items, x ≤ m := by
  obtain ⟨a, b, rest, meet⟩ := step
  intro x member
  rcases Multiset.mem_cons.mp member with rfl | member
  · obtain ⟨m, listed, below⟩ := covered a (by simp)
    obtain ⟨n, listed', below'⟩ := covered b (by simp)
    have meet' := persistent.grow a m b meet below
    have both := persistent.grow b n m (persistent.symm m b meet') below'
    have same : m = n := by
      by_contra different
      have symmetric : Std.Symm fun a b => ¬ Meets a b :=
        ⟨fun a b missed meet => missed (persistent.symm b a meet)⟩
      exact apart.forall listed' listed (Ne.symm different) both
    subst same
    exact ⟨m, listed, sup_le below below'⟩
  · exact covered x (by simp [member])

theorem Joins.below {items : List α} (persistent : Persistent Meets)
    (apart : items.Pairwise fun a b => ¬ Meets a b) (covered : ∀ x ∈ s, ∃ m ∈ items, x ≤ m)
    (joins : Joins Meets s t) : ∀ x ∈ t, ∃ m ∈ items, x ≤ m := by
  induction joins with
  | refl => exact covered
  | tail _ step ih => exact step.below persistent apart ih

theorem isLUB_foldl (first : α) (rest : List α) :
    IsLUB {x | x ∈ first :: rest} (rest.foldl (· ⊔ ·) first) := by
  induction rest generalizing first with
  | nil => simp
  | cons next rest ih =>
    obtain ⟨upper, least⟩ := ih (first ⊔ next)
    have joined : first ⊔ next ≤ rest.foldl (· ⊔ ·) (first ⊔ next) := upper (by simp)
    constructor
    · intro x member
      simp only [Set.mem_ofPred_eq, List.mem_cons] at member
      rcases member with rfl | rfl | member
      · exact le_sup_left.trans joined
      · exact le_sup_right.trans joined
      · exact upper (List.mem_cons_of_mem _ member)
    · intro bound above
      apply least
      intro x member
      rcases List.mem_cons.mp member with rfl | member
      · exact sup_le (above (by simp)) (above (by simp))
      · exact above (by simp [member])

end Coalescing
