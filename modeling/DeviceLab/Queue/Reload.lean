namespace DeviceLab

/-- The ids queued for one line of a command file, and the arguments of that line. -/
structure LineGroup where
  ids : List Nat
  args : List String
  deriving Repr, DecidableEq, Inhabited

/-- The changes that bring the queue in line with a file: ids to remove and lines to add. -/
structure ReloadPlan where
  remove : List Nat := []
  add : List (List String) := []
  deriving Repr, DecidableEq, Inhabited

namespace ReloadPlan

def isEmpty (plan : ReloadPlan) : Bool :=
  plan.remove.isEmpty && plan.add.isEmpty

/-- The items whose keys are not paid for by a budget of keys, each key of which pays once. -/
def unpaid {α κ : Type} [BEq κ] (key : α → κ) : List κ → List α → List α
  | _, [] => []
  | budget, item :: rest =>
    if budget.contains (key item) then unpaid key (budget.erase (key item)) rest
    else item :: unpaid key budget rest

def between (queued : List LineGroup) (lines : List (List String)) : ReloadPlan where
  remove := (unpaid LineGroup.args lines queued).flatMap LineGroup.ids
  add := unpaid id (queued.map LineGroup.args) lines

@[simp] theorem unpaid_nil {α κ : Type} [BEq κ] (key : α → κ) (budget : List κ) :
    unpaid key budget [] = [] := rfl

theorem unpaid_sublist {α κ : Type} [BEq κ] (key : α → κ) (budget : List κ) (items : List α) :
    (unpaid key budget items).Sublist items := by
  induction items generalizing budget with
  | nil => simp
  | cons item rest ih =>
    simp only [unpaid]
    split
    · exact (ih _).cons item
    · exact (ih _).cons_cons item

end ReloadPlan

end DeviceLab
