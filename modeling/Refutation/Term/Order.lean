import Refutation.Term.Basic

/-!
Orders on terms. Variables come before constants and constants before applications; symbols compare
by their names, applications by function name, then by number of arguments, then argument by
argument. How two variables compare is a parameter: all alike, or by number.
-/

namespace Refutation.Term

mutual

def compareWith (symbols : Symbols) (onVars : VarId → VarId → Ordering) : Term → Term → Ordering
  | .var x, .var y => onVars x y
  | .var _, .const _ => .lt
  | .var _, .app _ _ => .lt
  | .const _, .var _ => .gt
  | .const c, .const d => compare (symbols.name c) (symbols.name d)
  | .const _, .app _ _ => .lt
  | .app _ _, .var _ => .gt
  | .app _ _, .const _ => .gt
  | .app f ss, .app g ts =>
      (compare (symbols.name f) (symbols.name g)).then
        ((compare ss.length ts.length).then (compareArgs symbols onVars ss ts))

/-- Compares two lists of arguments pairwise, as far as both go. -/
def compareArgs (symbols : Symbols) (onVars : VarId → VarId → Ordering) :
    List Term → List Term → Ordering
  | s :: ss, t :: ts => (compareWith symbols onVars s t).then (compareArgs symbols onVars ss ts)
  | [], _ => .eq
  | _ :: _, [] => .eq

end

end Refutation.Term
