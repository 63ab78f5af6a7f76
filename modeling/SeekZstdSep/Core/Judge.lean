/-
Module: SeekZstdSep.Core.Judge
Purpose: What a verifying read asks about each frame it reaches the end of: the judge of
  `reader.rs` and the state of the closure that feeds it.
Trusted boundary: none
Main exports: FrameJudge, PhysicalFrameEnds, verifyFrameCount, verifyFrameEndsWhole, Passed
-/
import SeekZstdSep.Core.Source

namespace SeekZstdSep

/-- The ends of the frames of the file, for a reader that starts at frame `first` of it. -/
structure PhysicalFrameEnds where
  ends : List Nat
  first : Nat
  base : Nat
  finalEnd : Nat
deriving Repr, DecidableEq

/-- The source to name in a refusal, the index of the last frame, and the count every other
frame has to hold. -/
structure FrameJudge where
  label : String
  last : Nat
  perFrame : Nat
  physical : Option PhysicalFrameEnds
deriving Repr, DecidableEq

/-- Refuses frame `i` holding a count other than `perFrame`. Only the frame the file ends with
may hold fewer. -/
def verifyFrameCount (label : String) (i last held perFrame : Nat) : Except Error Unit :=
  if held ≠ perFrame ∧ ¬ (i = last ∧ held < perFrame) then
    .error (.frameCount i label held perFrame)
  else .ok ()

/-- Refuses frame `i` holding bytes after its last record. Only the frame the file ends with
may. -/
def verifyFrameEndsWhole (label : String) (i last : Nat) (endsWhole : Bool) : Except Error Unit :=
  if !endsWhole ∧ i ≠ last then .error (.frameTail i label) else .ok ()

namespace FrameJudge

def count (judge : FrameJudge) (i held : Nat) : Except Error Unit :=
  verifyFrameCount judge.label i judge.last held judge.perFrame

def endsWhole (judge : FrameJudge) (i : Nat) (endsWhole : Bool) : Except Error Unit :=
  verifyFrameEndsWhole judge.label i judge.last endsWhole

end FrameJudge

/-- The closure `watch_frames` hands to a watch, with the records it has already judged. The
walk starts in frame `first`. -/
structure Passed where
  judge : FrameJudge
  first : Nat
  walked : Nat := 0
deriving Repr, DecidableEq

/-- The end of the `i`-th watched frame was reached: `before` records ended in front of it, and
`endsWhole` says whether one ended on it. -/
def Passed.call (passed : Passed) (i before : Nat) (endsWhole : Bool) : Except Error Passed :=
  let frame := passed.first + i
  match passed.judge.count frame (before - passed.walked) with
  | .error e => .error e
  | .ok () =>
      match passed.judge.endsWhole frame endsWhole with
      | .error e => .error e
      | .ok () => .ok { passed with walked := before }

end SeekZstdSep
