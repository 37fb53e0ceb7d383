import XmipNet.Http2.Frame
import Mathlib.Algebra.Order.Ring.Int

/-!
# A flow-control window

RFC 9113 sections 5.2 and 6.9: what one side may still send, taken by every
`DATA` and given back by `WINDOW_UPDATE`. Signed, because a smaller initial
window can take a stream's window below zero.
-/

namespace XmipNet
namespace Http2

/-- One window, on the connection or on a stream. -/
structure Window where
  value : Int
  deriving DecidableEq, Repr

namespace Window

/-- A window of `size` octets. -/
def new (size : Nat) : Window :=
  { value := size }

/-- The octets that may still be sent; none while the window is at or below
zero. -/
def available (window : Window) : Nat :=
  window.value.toNat

/-- Take `octets` for a `DATA` sent or received. -/
def take (window : Window) (octets : Nat) : Except Violation Window :=
  if window.value < octets then
    .error (.new .flowControl
      s!"{octets} octets against a window of {window.value}")
  else
    .ok { value := window.value - octets }

/-- Move the window by the change of the initial window, which may take it
below zero. -/
def shift (window : Window) (delta : Int) : Except Violation Window :=
  let moved := window.value + delta
  if (maxStreamId : Int) < moved then
    .error (.new .flowControl s!"a window of {moved}, over 2^31 - 1")
  else
    .ok { value := moved }

/-- Give back `increment` octets, as a `WINDOW_UPDATE` does. -/
def grant (window : Window) (increment : Nat) : Except Violation Window :=
  if increment = 0 then
    .error (.protocol "a WINDOW_UPDATE of 0")
  else
    window.shift increment

theorem take_eq_ok_iff
    {window after : Window}
    {octets : Nat} :
    window.take octets = .ok after ↔
      octets ≤ window.value ∧ after.value = window.value - octets := by
  rw [take]
  split
  case isTrue short =>
    simp [not_le.mpr short]
  case isFalse holds =>
    rw [Except.ok.injEq]
    constructor
    · rintro rfl
      exact ⟨not_lt.mp holds, rfl⟩
    · rintro ⟨_, moved⟩
      cases after
      cases moved
      rfl

theorem shift_eq_ok_iff
    {window after : Window}
    {delta : Int} :
    window.shift delta = .ok after ↔
      window.value + delta ≤ maxStreamId ∧
        after.value = window.value + delta := by
  simp only [shift]
  split
  case isTrue exceeds =>
    simp [not_le.mpr exceeds]
  case isFalse within =>
    rw [Except.ok.injEq]
    constructor
    · rintro rfl
      exact ⟨not_lt.mp within, rfl⟩
    · rintro ⟨_, moved⟩
      cases after
      cases moved
      rfl

theorem grant_eq_ok_iff
    {window after : Window}
    {increment : Nat} :
    window.grant increment = .ok after ↔
      0 < increment ∧ window.value + increment ≤ maxStreamId ∧
        after.value = window.value + increment := by
  rw [grant]
  split
  case isTrue zero => simp [zero]
  case isFalse positive =>
    rw [shift_eq_ok_iff]
    simp [Nat.pos_of_ne_zero positive]

/-- Octets within what is available can be taken. -/
theorem take_of_le_available
    {window : Window}
    {octets : Nat}
    (within : octets ≤ window.available)
    (nonempty : 0 < octets ∨ 0 ≤ window.value) :
    window.take octets = .ok { value := window.value - octets } := by
  rw [take_eq_ok_iff]
  refine ⟨?_, rfl⟩
  rw [available] at within
  omega

end Window
end Http2
end XmipNet
