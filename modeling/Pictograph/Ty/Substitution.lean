import Pictograph.Ty.Basic

/-!
# Filling in generic parameters

Members of a generic class mention its parameters by number. Used on a receiver, each of them stands
for the receiver's generic argument of that number. A value that is optional by the mention or by
the argument is optional.
-/

namespace Pictograph.Ty

mutual

/-- The type `t`, mentioned by a member, as it reads on a receiver of type `on`. A parameter for
which the receiver has no argument stays as it is. -/
def resolve (on : Ty) : (t : Ty) → Ty
  | ⟨kind, isOptional, arguments⟩ =>
    match kind with
    | .parameter index =>
      match on.arguments[index]? with
      | some argument => argument.withOptional (isOptional || argument.isOptional)
      | none => ⟨.parameter index, isOptional, arguments⟩
    | kind => ⟨kind, isOptional, resolveAll on arguments⟩

/-- The list form of `resolve`. -/
def resolveAll (on : Ty) : (ts : List Ty) → List Ty
  | [] => []
  | t :: ts => resolve on t :: resolveAll on ts

end

@[simp] theorem resolveAll_eq_map (on : Ty) (ts : List Ty) :
    resolveAll on ts = ts.map (resolve on) := by
  induction ts with
  | nil => rfl
  | cons t ts ih => rw [resolveAll, ih, List.map_cons]

end Pictograph.Ty
