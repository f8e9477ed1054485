import RobustLP.Proofs.Model.Editing
import RobustLP.Scalar.Exact

/-!
# Calls that fail

A call that fails leaves the model as it was, unless it is one of three (`Model.Call.edit_fails`): a variable is entered before its
value is read, an objective is stored before its sense is read, and values are loaded one by one. Each of the three leaves behind
exactly what `Model.Call.Torn` says.

A variable that was entered without a value shifts the values of all later ones. As long as there was none, the tables of
variables have the same length and each variable reads its own value (`Model.Reached.aligned`).
-/

namespace RobustLP

open Edit

namespace Model

variable {K B : Type} [Bound B] [Scalar K B] {self : ModelId} {m m' : Model K B} {c : Call K B}

/-- There is one value for each variable. -/
def Aligned (m : Model K B) : Prop := m.values.length = m.decisions.length

/-- A call other than one that declares a variable with a value that cannot be read. -/
def Call.Readable : Call K B → Prop
  | .addVariable d => ∀ e, d.value ≠ some (.error e)
  | _ => True

theorem Call.Done.aligned (h : c.Done self m m') (hm : m.Aligned) : m'.Aligned := by
  unfold Aligned at *
  cases h with
  | addVariable => simp [hm]
  | addVariables => simp [hm]
  | loadValues _ hlength => simp only [List.length_append, List.length_map, List.length_drop]; omega
  | setValue => simp [hm]
  | renameVariable | setLower | setUpper => simp [hm]
  | _ => exact hm

theorem Call.Torn.aligned (h : c.Torn self m m') (hc : c.Readable) (hm : m.Aligned) : m'.Aligned := by
  unfold Aligned at *
  cases h with
  | addVariable _ hvalue => exact absurd hvalue (hc _)
  | setObjective => exact hm
  | loadValues _ _ hlength => simp only [List.length_append, List.length_map, List.length_drop]; omega

/-- The tables of variables have the same length where no variable was declared with a value that could not be read. -/
theorem Reached.aligned [Written K] [Written B] (h : m.Reached self fun _ c => c.Readable) : m.Aligned :=
  h.induct (fun _ _ _ => rfl) (fun _ _ _ hm _ hdone => hdone.aligned hm) fun _ _ _ hm hc htorn => htorn.aligned hc hm

end Model

end RobustLP
