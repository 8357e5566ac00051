import SourceMigration.Trace

/-!
# SourceMigration — the journal of a run

What a run leaves behind besides its result: the trace, which belongs to the result, and the
remarks for whoever watches the run at work.
-/

namespace SourceMigration

/-- The trace of a run, and remarks in the order in which they were made. -/
structure Journal where
  trace : Trace := {}
  remarks : List String := []
  deriving Inhabited

namespace Journal

/-- Records an event in the trace. -/
def log (j : Journal) (f : Trace → Trace) : Journal := { j with trace := f j.trace }

/-- Makes remarks. -/
def remark (j : Journal) (remarks : List String) : Journal :=
  { j with remarks := j.remarks ++ remarks }

end Journal

end SourceMigration
