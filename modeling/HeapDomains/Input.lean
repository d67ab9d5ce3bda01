import HeapDomains.Facts.Json
import HeapDomains.Program.Json

/-!
# Input

What a run is given: a program and the facts about it, which are empty when they are not given.
-/

namespace HeapDomains

/-- What a run is given. -/
structure AnalysisInput where
  /-- The program. -/
  program : Program
  /-- The facts about it. -/
  facts : Facts
  deriving DecidableEq

/-- Reads what a run is given. -/
def AnalysisInput.reader : JsonReader AnalysisInput :=
  (AnalysisInput.mk <$> .required "program" Program.reader <*>
    .optional "facts" Facts.reader Facts.empty : Fields AnalysisInput).reader

end HeapDomains
