/-!
What a build says while it runs.
-/

namespace ImageLayer

/-- One thing said during a build. -/
inductive Message where
  /-- What is being done. -/
  | report (text : String)
  /-- How far a sequence of steps has come, and the step that starts. -/
  | progress (current total : Nat) (text : String)
  /-- Something that the build goes on in spite of. -/
  | warning (text : String)
  /-- What the build stops at. -/
  | error (text : String)
  /-- What was finished. -/
  | completion (text : String)
  deriving DecidableEq, Repr

end ImageLayer
