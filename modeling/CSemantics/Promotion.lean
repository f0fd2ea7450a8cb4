/-
  Promotions.

  The integer promotions turn every type of rank at most that of `int` into `int`, or into
  `unsigned int` when `int` cannot hold all its values; a type of greater rank stays, except that a
  bit-field becomes its declared type.  The default argument promotions add that a `float` becomes
  a `double`.
-/
import CSemantics.Typing.Common

namespace CSemantics

section Code

variable (cfg : Settings) (tags : Tags)

/-- `rank` of an integer type -/
def IntType.rank : IntType → Nat
  | .bool => 0
  | .char | .signedChar | .unsignedChar => 1
  | .shortInt | .unsignedShortInt => 2
  | .int | .signedInt | .unsignedInt => 3
  | .longInt | .unsignedLongInt => 4
  | .longLongInt | .unsignedLongLongInt => 5
  | .oversizedInt | .unsignedOversizedInt => 6

/-- `rank`; an enumeration has the rank of its alias, a bit-field that of its declared type. -/
def rank : UType → Eval Nat
  | .ut _ (.nonArray (.basic (.integer i))) => .ok i.rank
  | .ut _ (.nonArray (.basic (.bitfieldType i _))) => .ok i.rank
  | .ut _ (.nonArray (.enumType s)) => do return (← getEnumAlias tags s).rank
  | _ => .error .stuck

def stripBitfield : UType → UType
  | .ut _ (.nonArray (.basic (.bitfieldType i _))) => i.toSimple.toUType
  | T => T

/-- `promote` -/
def promote (T : UType) : Eval UType := do
  if (← rank tags T) ≤ IntType.int.rank then
    let lo ← T.min cfg tags
    let hi ← T.max cfg tags
    let intLo ← imin cfg (.integer .int)
    let intHi ← imax cfg (.integer .int)
    -- <= so enums become ints
    if intLo ≤ lo ∧ intHi ≥ hi then return IntType.int.toSimple.toUType
    else return IntType.unsignedInt.toSimple.toUType
  else return stripBitfield T

/-- `argPromoteType` -/
def argPromoteType (T : UType) : Eval UType :=
  match T with
  | .ut m (.nonArray (.basic (.float .float))) => .ok (.ut m (.nonArray (.basic (.float .double))))
  | T => if T.isInteger then promote cfg tags T else .ok T

end Code

/-- A promoted type is the type itself, or the type was arithmetic and so is the result. -/
theorem argPromoteType_cases {cfg : Settings} {tags : Tags} {T P : UType}
    (h : argPromoteType cfg tags T = .ok P) :
    P = T ∨ ((T.isInteger = true ∨ T.isFloat = true) ∧
      ∃ m b, P = .ut m (.nonArray (.basic b)) ∧ (m = noMods ∨ m = T.getModifiers)) := by
  by_cases hint : T.isInteger = true
  · have hP : promote cfg tags T = .ok P := by
      -- the rule for float does not match an integer type
      rcases UType.isInteger_cases hint with ⟨m, i, rfl⟩ | ⟨m, i, n, rfl⟩ | ⟨m, s, rfl⟩
      all_goals simpa [argPromoteType, hint] using h
    unfold promote at hP
    cases hr : rank tags T with
    | error e => rw [hr] at hP; cases hP
    | ok r =>
      simp only [hr, bind, Except.bind] at hP
      by_cases hle : r ≤ IntType.int.rank
      · rw [if_pos hle] at hP
        cases hlo : T.min cfg tags with
        | error e => simp [hlo] at hP
        | ok lo =>
          cases hhi : T.max cfg tags with
          | error e => simp [hlo, hhi] at hP
          | ok hi =>
            simp only [hlo, hhi, imin_integer, imax_integer, pure, Except.pure] at hP
            split at hP
            · injection hP with hP
              exact .inr ⟨.inl hint, noMods, _, hP.symm, .inl rfl⟩
            · injection hP with hP
              exact .inr ⟨.inl hint, noMods, _, hP.symm, .inl rfl⟩
      · rw [if_neg hle] at hP
        simp only [pure, Except.pure] at hP
        injection hP with hP
        unfold stripBitfield at hP
        split at hP
        · exact .inr ⟨.inl hint, noMods, _, hP.symm, .inl rfl⟩
        · exact .inl hP.symm
  · unfold argPromoteType at h
    split at h
    · injection h with h
      exact .inr ⟨.inr rfl, _, _, h.symm, .inr rfl⟩
    · rw [if_neg hint] at h
      injection h with h
      exact .inl h.symm

end CSemantics
