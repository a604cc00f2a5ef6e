/-!
# Lexicographic order

* `lexLe`: lists in the order of their first difference
* `lexLe_total`, `lexLe_trans`, `lexLe_antisymm`: it orders lists as well as their elements are
  ordered
-/

namespace BootSigning

variable {α : Type}

/-- Lists in the order of their first difference; a beginning comes before the whole. -/
def lexLe (le : α → α → Bool) : List α → List α → Bool
  | [], _ => true
  | _ :: _, [] => false
  | a :: as, b :: bs => le a b && (!le b a || lexLe le as bs)

/-- Any two lists are in order one way or the other, if any two elements are. -/
theorem lexLe_total {le : α → α → Bool} (total : ∀ a b, le a b || le b a) :
    ∀ as bs, lexLe le as bs || lexLe le bs as := by
  intro as
  induction as with
  | nil => intro bs; simp [lexLe]
  | cons a as ih =>
    intro bs
    cases bs with
    | nil => simp [lexLe]
    | cons b bs =>
      have hab := total a b
      have hrest := ih bs
      cases h₁ : le a b <;> cases h₂ : le b a <;> simp_all [lexLe]

/-- The order of lists is transitive, if that of the elements is. -/
theorem lexLe_trans {le : α → α → Bool} (trans : ∀ a b c, le a b → le b c → le a c) :
    ∀ as bs cs, lexLe le as bs → lexLe le bs cs → lexLe le as cs := by
  intro as
  induction as with
  | nil => intro bs cs _ _; simp [lexLe]
  | cons a as ih =>
    intro bs cs hab hbc
    cases bs with
    | nil => simp [lexLe] at hab
    | cons b bs =>
      cases cs with
      | nil => simp [lexLe] at hbc
      | cons c cs =>
        simp only [lexLe, Bool.and_eq_true, Bool.or_eq_true, Bool.not_eq_true'] at hab hbc ⊢
        refine ⟨trans a b c hab.1 hbc.1, ?_⟩
        cases hca : le c a with
        | false => exact Or.inl rfl
        | true =>
          have hba : le b a = true := trans b c a hbc.1 hca
          have hcb : le c b = true := trans c a b hca hab.1
          exact Or.inr (ih bs cs (by simpa [hba] using hab.2) (by simpa [hcb] using hbc.2))

/-- Lists that are in order both ways are the same, if that is so for elements. -/
theorem lexLe_antisymm {le : α → α → Bool} (antisymm : ∀ a b, le a b → le b a → a = b) :
    ∀ as bs, lexLe le as bs → lexLe le bs as → as = bs := by
  intro as
  induction as with
  | nil =>
    intro bs _ hba
    cases bs with
    | nil => rfl
    | cons b bs => simp [lexLe] at hba
  | cons a as ih =>
    intro bs hab hba
    cases bs with
    | nil => simp [lexLe] at hab
    | cons b bs =>
      simp only [lexLe, Bool.and_eq_true, Bool.or_eq_true, Bool.not_eq_true'] at hab hba
      have hrest : lexLe le as bs := by simpa [hba.1] using hab.2
      have hrest' : lexLe le bs as := by simpa [hab.1] using hba.2
      rw [antisymm a b hab.1 hba.1, ih bs hrest hrest']

end BootSigning
