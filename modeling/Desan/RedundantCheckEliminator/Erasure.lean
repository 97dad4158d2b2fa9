import Desan.CheckSliceRemover.Removal
import Desan.RedundantCheckEliminator.Marking

/-! # Erasing the marked calls -/

namespace Desan

/-- The functions of the module while the marked calls are erased, the functions the
remover has touched, what it has looked at and how many calls it has removed. -/
structure Erasure where
  functions : List Function
  touchedFunctions : List String := []
  looks : List Look := []
  removed : Nat := 0

namespace Erasure

def functionOf? (erasure : Erasure) (inst : InstId) : Option Function :=
  erasure.functions.find? fun function => (function.inst? inst).isSome

def isLive (erasure : Erasure) (inst : InstId) : Bool := (erasure.functionOf? inst).isSome

def touch (erasure : Erasure) (name : String) : Erasure :=
  if name ∈ erasure.touchedFunctions then erasure
  else { erasure with touchedFunctions := erasure.touchedFunctions ++ [name] }

/-- Clean up every touched function, but the one already clean. -/
def tidyTouched (erasure : Erasure) (utilities : CleanupUtilities) (done : String) :
    Erasure :=
  { erasure with
    functions := erasure.functions.map fun function =>
      if function.name ∈ erasure.touchedFunctions ∧ function.name ≠ done then
        utilities.tidy function
      else function }

def setFunction (erasure : Erasure) (function : Function) : Erasure :=
  { erasure with
    functions := erasure.functions.map fun candidate =>
      if candidate.name = function.name then function else candidate }

/-- `removeCheckSlice` for the next call. A call that has been erased has no parent to
answer for it: the look at it is recorded and nothing is done. -/
def removeCheckSlice (erasure : Erasure) (utilities : CleanupUtilities)
    (values : ValueTable) (check : InstId) : Erasure :=
  let looked : Erasure :=
    { erasure with looks := erasure.looks ++ [⟨check, erasure.isLive check⟩] }
  match erasure.functionOf? check with
  | none => looked
  | some function =>
      let touched := looked.touch function.name
      let removal := function.removeCheckSlice utilities values check
      if removal.removed then
        let replaced := (touched.setFunction removal.function).tidyTouched utilities
          function.name
        { replaced with
          looks := replaced.looks ++ removal.looks
          removed := replaced.removed + 1 }
      else touched.setFunction removal.function

/-- The loop of `eraseMarkedChecks` over the calls it has taken from the set. -/
def eraseCalls (erasure : Erasure) (utilities : CleanupUtilities) (values : ValueTable)
    (calls : List InstId) : Erasure :=
  calls.foldl (fun erasure check => erasure.removeCheckSlice utilities values check) erasure

/-- The clean-up of every touched function. -/
def tidy (erasure : Erasure) (utilities : CleanupUtilities) : Erasure :=
  { erasure with
    functions := erasure.functions.map fun function =>
      if function.name ∈ erasure.touchedFunctions then utilities.tidy function
      else function }

end Erasure

namespace Module

/-- The state in which `eraseMarkedChecks` is entered. -/
def erasure (module : Module) : Erasure := { functions := module.functions }

/-- `eraseMarkedChecks`, for one order in which the pointer set lists the calls. -/
def eraseMarkedChecks (module : Module) (utilities : CleanupUtilities)
    (calls : List InstId) : Erasure :=
  (module.erasure.eraseCalls utilities module.values calls).tidy utilities

end Module

end Desan
