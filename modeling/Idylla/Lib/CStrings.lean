import Idylla.Lib.Loops

namespace Idylla.Lib

/-!
# Strings that a terminator ends

A string is what precedes its terminator.  The terminator itself may be read;
a read behind it strays.
-/

/-- A string, less its terminator. -/
structure CString (Symbol : Type) (nul : Symbol) where
  chars : List Symbol
  noNul : nul ∉ chars

namespace CString

variable {Symbol : Type} {nul : Symbol} (text : CString Symbol nul)

/-- One character of a string, or its terminator. -/
def charAt (index : Nat) : Except Fault Symbol :=
  if index ≤ text.chars.length then .ok (text.chars.getD index nul)
  else .error .strays

variable {text} {index : Nat}

theorem charAt_inside (inside : index ≤ text.chars.length) :
    text.charAt index = .ok (text.chars.getD index nul) :=
  if_pos inside

theorem charAt_behind (behind : text.chars.length < index) :
    text.charAt index = .error .strays :=
  if_neg (Nat.not_le.mpr behind)

/-- Only the terminator is one. -/
theorem getD_eq_nul_iff (inside : index ≤ text.chars.length) :
    text.chars.getD index nul = nul ↔ index = text.chars.length := by
  constructor
  · intro isNul
    refine Classical.byContradiction fun differs => text.noNul ?_
    have below : index < text.chars.length := by omega
    rw [List.getD_eq_getElem?_getD, List.getElem?_eq_getElem below,
      Option.getD_some] at isNul
    have member := List.getElem_mem below
    rwa [isNul] at member
  · rintro rfl
    rw [List.getD_eq_getElem?_getD, List.getElem?_eq_none (Nat.le_refl _),
      Option.getD_none]

end CString

end Idylla.Lib
