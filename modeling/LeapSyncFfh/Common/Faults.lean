/-
  LeapSyncFfh.Common.Faults — the return codes (`generalReturnValue.h`), and how a run
  of the program can end inside a function: a subscript outside its array, a null
  pointer, a division by zero, an exception no caller catches, `abort()`.
-/

namespace LeapSyncFfh

inductive AR_RETURN_VALUE where
  | SUCCESS
  | MOTION_FAIL
  | ACTION_FAIL
  | ALGORITHM_ERROR
  | INVALID_VALUE
  | OVER_TIME
  | COMM_ERROR
  | NOT_FINISHED
  deriving DecidableEq, Repr

/-- The arrays a subscript or a `memcpy` can leave. -/
inductive Arr where
  | m_buffer
  | lastFramePHands
  | framePHands
  | hands
  | serial
  | ffhValid
  | ffhs
  | limits
  | selfCheckData
  | finger
  | angle
  deriving DecidableEq, Repr

inductive Fault where
  | outOfBounds (a : Arr)
  | nullPointer
  | divisionByZero
  /-- `std::terminate` after an exception that nothing catches. -/
  | uncaught
  /-- `lp2_assert` calls `abort()`. -/
  | aborted
  /-- An infinite or not-a-number angle: not a value of the exact angle type. -/
  | notExact
  deriving DecidableEq, Repr

end LeapSyncFfh
