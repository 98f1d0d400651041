import Corrlog.Binary64.Integers
import Corrlog.Core.Canonical

/-!
# The reference candidate

`validation/harness/jcs_candidate.py` is the renderer the core was repaired after.
The two differ in the numbers: the candidate writes an integer below `2 ** 53` as
`str(n)`, where the core goes through `float(n)` and the text of `repr`.

Both write the same (`integer_spellings`), since the shortest digits of such an
integer are its own (`Binary64.shortestDigits_decIndex`) and it has at most 16 of
them, too few for an exponent.
-/

namespace Corrlog.Candidate

open Python
open Binary64 (ofInt decIndex isFinite_ofInt ofInt_small shortestDigits)

/-- `_es_number` of the candidate.  Below the integers its text is that of
`_jcs_double`. -/
def esNumber : PyValue → Except PyErr (List Char)
  | .bool _ => raise .TypeError "bool is not a JSON number"
  | .int n =>
      if n.natAbs < 2 ^ 53 then intText n
      -- `float(n)` raises here, and nothing catches it
      else if (ofInt n).isFinite then jcsDouble (ofInt n)
      else builtinError .OverflowError
  | .float x => jcsDouble x
  | _ => builtinError .TypeError

/-! ## Small integers -/

/-- The digits of an integer, laid out, are the integer. -/
theorem esLit_integer {ds : List Char} {k z : ℕ} (neg : Bool)
    (hk : Nat.toDigits 10 k = ds ++ List.replicate z '0')
    (hlen : (Nat.toDigits 10 k).length ≤ 21) :
    esLit neg ds ((Nat.toDigits 10 k).length : ℤ) = ⟨neg, Nat.toDigits 10 k, [], none⟩ := by
  have hz : (Nat.toDigits 10 k).length = ds.length + z := by
    rw [hk, List.length_append, List.length_replicate]
  have hzeros : zeros (((Nat.toDigits 10 k).length : ℤ) - ds.length) = List.replicate z '0' := by
    rw [zeros, hz]
    congr 1
    omega
  rw [esLit, if_pos (by omega), hzeros, ← hk]

theorem esNumber_small (neg : Bool) {k : ℕ} (hpos : 0 < k) (hk : k < 2 ^ 53) :
    Corrlog.esNumber neg (decIndex 1074 k 0) = ⟨neg, Nat.toDigits 10 k, [], none⟩ := by
  have hne : decIndex 1074 k 0 ≠ 0 := by
    intro h
    rw [← Binary64.decIndex_zero (p := 1074) 0] at h
    have := Binary64.eq_of_decIndex_eq (by omega) (by omega : 0 < 2 ^ 53) h
    omega
  have hlen : (Nat.toDigits 10 k).length ≤ 21 := by
    rw [Nat.length_toDigits_le_iff (by omega) (by omega)]
    omega
  obtain ⟨hds, hpoint⟩ := Binary64.shortestDigits_decIndex (p := 1074) (by omega) hpos hk
  obtain ⟨z, hz⟩ := hds
  rw [Corrlog.esNumber, if_neg hne, hpoint]
  exact esLit_integer neg hz hlen

theorem esNumber_natAbs {n : ℤ} (h : n.natAbs < 2 ^ 53) :
    Corrlog.esNumber (decide (n < 0)) (decIndex 1074 n.natAbs 0) = intLit n := by
  rcases Nat.eq_zero_or_pos n.natAbs with h0 | hpos
  · have hn : ¬n < 0 := by omega
    rw [intLit, h0, Binary64.decIndex_zero, Corrlog.esNumber, if_pos rfl, decide_eq_false hn,
      Nat.toDigits_zero]
  · exact esNumber_small _ hpos h

/-- The float path spells a small integer as `str` does. -/
theorem jcsDouble_small {n : ℤ} (h : n.natAbs < 2 ^ 53) :
    jcsDouble (ofInt n) = .ok (intRepr n) := by
  obtain ⟨hlt, hn⟩ := ofInt_small h
  rw [hn, jcsDouble_finite, intRepr, esNumber_natAbs h]

/-- A small integer is not too long for `str`. -/
theorem intText_small {n : ℤ} (h : n.natAbs < 2 ^ 53) : intText n = .ok (intRepr n) :=
  if_pos (length_toDigits_le (isFinite_ofInt h))

/-- The core and the candidate write every integer within the binary64 range alike, and
below `2 ** 53` the float path writes its decimal digits. -/
theorem integer_spellings (n : ℤ) :
    ((ofInt n).isFinite = true → jcsNumber (.int n) = esNumber (.int n)) ∧
    (n.natAbs < 2 ^ 53 → jcsDouble (ofInt n) = .ok (intRepr n)) := by
  refine ⟨fun hfin => ?_, jcsDouble_small⟩
  rw [jcsNumber, jcsInteger, esNumber, if_pos hfin, if_pos hfin]
  split
  next h => rw [jcsDouble_small h, intText_small h]
  next => rfl

theorem integer_spellings_thousands :
    jcsNumber (.int (-120000)) = esNumber (.int (-120000)) ∧
    jcsDouble (ofInt (-120000)) = .ok ['-', '1', '2', '0', '0', '0', '0'] :=
  ⟨(integer_spellings (-120000)).1 (isFinite_ofInt (by omega)),
    (integer_spellings (-120000)).2 (by omega)⟩

end Corrlog.Candidate
