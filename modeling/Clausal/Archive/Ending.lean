/-
  Clausal.Archive.Ending

  How evaluations end, as it is recorded.
-/
import Clausal.Archive.Basic
import Clausal.Evaluator

namespace Clausal

def Evaluation.ending (e : Evaluation) : Ending :=
  match e.outcome with
  | .value t => ⟨some t, e.evaluator.steps, none, none⟩
  | .failure f => ⟨none, e.evaluator.steps, some f.message, none⟩
  | .unfinished => ⟨none, e.evaluator.steps, some "unfinished", none⟩

def Interpretation.ending (i : Interpretation) : Ending :=
  match i.verdict with
  | .value t => ⟨some t, i.steps, none, none⟩
  | .failure f => ⟨none, i.steps, some f.message, none⟩
  | .refused f => ⟨none, i.steps, none, some f.message⟩
  | .unfinished => ⟨none, i.steps, some "unfinished", none⟩

end Clausal
