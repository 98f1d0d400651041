import Corrlog.Python.Lookup

/-!
# Places in a value

A path goes from a value through dict values and elements of lists and tuples.
The number at a place has an exact value, and so has a binary64 number; an integer
is `Exact` if it is the value of its own `float()`.

`Same` compares numbers after `float()`.  In values whose integers are all exact
that loses nothing: the same values have the same numbers at the same places
(`numberAt_of_same`).
-/

open Python

namespace Binary64

/-- The value of a finite number. -/
def value : Binary64 → Option ℚ
  | .finite neg m => some ((if neg then -(grid m.val : ℚ) else grid m.val) / 2 ^ 1074)
  | .inf _ => none
  | .nan => none

theorem value_normZero (x : Binary64) : x.normZero.value = x.value := by
  cases x with
  | finite neg m =>
      by_cases h : m.val = 0
      · simp [normZero, value, h]
      · simp [normZero, h]
  | inf neg => rfl
  | nan => rfl

/-- Neither infinity nor NaN has a value. -/
theorem value_eq_none {x : Binary64} (h : x.isFinite = false) : x.value = none := by
  cases x with
  | finite neg m => cases h
  | inf neg => rfl
  | nan => rfl

theorem isFinite_of_value {x : Binary64} {q : ℚ} (h : x.value = some q) : x.isFinite = true := by
  cases x with
  | finite neg m => rfl
  | inf neg => cases h
  | nan => cases h

end Binary64

namespace Python

open Binary64 (ofInt)

/-- The integer is the value of its `float()`. -/
def Exact (n : ℤ) : Prop := (ofInt n).value = some (n : ℚ)

/-- Division and multiplication by a positive number, with signs. -/
theorem signed_div_eq {a u : ℕ} (hu : u ≠ 0) (neg : Bool) (n : ℤ) :
    (if neg then -(a : ℚ) else a) / u = n ↔ (if neg then -(a : ℤ) else a) = n * u := by
  rw [div_eq_iff (Nat.cast_ne_zero.mpr hu)]
  cases neg with
  | true =>
      show -(a : ℚ) = n * u ↔ -(a : ℤ) = n * u
      exact_mod_cast Iff.rfl
  | false =>
      show (a : ℚ) = n * u ↔ (a : ℤ) = n * u
      exact_mod_cast Iff.rfl

/-- The comparison `int(x) == n`. -/
theorem intEqFloat_iff {n : ℤ} {x : Binary64} :
    PyValue.intEqFloat n x = true ↔ x.value = some (n : ℚ) := by
  cases x with
  | finite neg m =>
      have hiff := signed_div_eq (a := Binary64.grid m.val) (pow_ne_zero 1074 two_ne_zero) neg n
      rw [PyValue.intEqFloat, decide_eq_true_eq, Binary64.value, Option.some.injEq]
      rw [Nat.cast_pow, Nat.cast_pow, Nat.cast_ofNat, Nat.cast_ofNat] at hiff
      exact hiff.symm
  | inf neg => exact iff_of_false Bool.false_ne_true (by intro h; cases h)
  | nan => exact iff_of_false Bool.false_ne_true (by intro h; cases h)

/-! ## Paths -/

/-- A step into a container. -/
inductive Step where
  | key (k : PyKey)
  | index (i : ℕ)

namespace PyValue

/-- The value a step leads to. -/
def child (v : PyValue) : Step → Option PyValue
  | .key k =>
      match v with
      | .dict items => getKey k items
      | _ => .none
  | .index i => (seq? v).bind (·[i]?)

/-- The value at a place. -/
def get (v : PyValue) : List Step → Option PyValue
  | [] => some v
  | s :: path => (v.child s).bind (·.get path)

/-- The exact value of a number. -/
def number : PyValue → Option ℚ
  | .int n => some n
  | .float x => x.value
  | _ => .none

/-- The number at a place. -/
def numberAt (v : PyValue) (path : List Step) : Option ℚ := (v.get path).bind number

/-- Every integer in the value is exact. -/
def AllExact (v : PyValue) : Prop := ∀ path n, v.get path = some (.int n) → Exact n

@[simp] theorem get_nil (v : PyValue) : v.get [] = some v := rfl

@[simp] theorem get_cons (v : PyValue) (s : Step) (path : List Step) :
    v.get (s :: path) = (v.child s).bind (·.get path) := rfl

theorem numberAt_nil (v : PyValue) : v.numberAt [] = v.number := rfl

/-- The number at a path is the one at the rest of the path in a child. -/
theorem numberAt_cons (v : PyValue) (s : Step) (path : List Step) :
    v.numberAt (s :: path) = (v.child s).bind (·.numberAt path) := by
  rw [numberAt, get_cons, Option.bind_assoc]
  rfl

theorem mem_of_child_index {v w : PyValue} {i : ℕ} (h : v.child (.index i) = some w) :
    ∃ xs, seq? v = some xs ∧ xs[i]? = some w := Option.bind_eq_some_iff.mp h

/-- Only dicts have children under keys. -/
theorem child_key_eq_some {v w : PyValue} {k : PyKey} :
    v.child (.key k) = some w ↔ ∃ items, v = .dict items ∧ getKey k items = some w := by
  cases v <;> simp [child]

theorem child_key_eq_none {v : PyValue} (h : isDict v = false) (k : PyKey) :
    v.child (.key k) = .none := by
  cases v with
  | dict items => cases h
  | _ => rfl

/-- The children of an exact value are exact. -/
theorem AllExact.child {v w : PyValue} {s : Step} (hv : v.AllExact) (h : v.child s = some w) :
    w.AllExact := by
  intro path n hn
  refine hv (s :: path) n ?_
  rw [get_cons, h]
  exact hn

/-- The children of a well-formed value are well-formed. -/
theorem wf_of_child {v w : PyValue} {s : Step} (hv : v.WF) (h : v.child s = some w) : w.WF := by
  cases s with
  | key k =>
      obtain ⟨items, rfl, hget⟩ := child_key_eq_some.mp h
      exact wf_of_getKey hv hget
  | index i =>
      obtain ⟨xs, hxs, hi⟩ := mem_of_child_index h
      exact wf_of_seq hv hxs w (List.mem_of_getElem? hi)

/-! ## The same values -/

theorem seq?_eq_none_of_same {v w : PyValue} (hw : w.WF) (h : Same v w) (hv : seq? v = .none) :
    seq? w = .none := by
  cases hs : seq? w with
  | none => rfl
  | some ys =>
      obtain ⟨xs, hxs, _⟩ := seq?_of_same hs (same_symm hw h)
      rw [hv] at hxs
      cases hxs

/-- Two lists of the same values have the same value at each index. -/
theorem getElem?_of_forall₂ {xs ys : List PyValue} (h : List.Forall₂ Same xs ys) (i : ℕ) :
    Option.Rel Same xs[i]? ys[i]? := by
  induction h generalizing i with
  | nil => exact .none
  | cons hxy _ ih =>
      cases i with
      | zero => exact .some hxy
      | succ i => exact ih i

/-- A step leads from the same values to the same values. -/
theorem child_of_same {v w : PyValue} (hw : w.WF) (h : Same v w) (s : Step) :
    Option.Rel Same (v.child s) (w.child s) := by
  cases s with
  | index i =>
      show Option.Rel Same ((seq? v).bind (·[i]?)) ((seq? w).bind (·[i]?))
      cases hs : seq? v with
      | none =>
          rw [seq?_eq_none_of_same hw h hs]
          exact .none
      | some xs =>
          obtain ⟨ys, hys, hxy⟩ := seq?_of_same hs h
          rw [hys]
          exact getElem?_of_forall₂ hxy i
  | key k =>
      cases hd : isDict v with
      | true =>
          obtain ⟨items, rfl⟩ := exists_dict_of_isDict hd
          obtain ⟨items', rfl, _⟩ := same_dict_iff.mp h
          exact getKey_of_same hw h k
      | false =>
          have hd' : isDict w = false := (isDict_of_same h).symm.trans hd
          rw [child_key_eq_none hd, child_key_eq_none hd']
          exact .none

/-- The same values are the same number, or neither is one. -/
theorem num?_eq_of_same {v w : PyValue} (hw : w.WF) (h : Same v w) : num? v = num? w := by
  cases hn : num? v with
  | some x => exact (num?_of_same hn h).symm
  | none =>
      cases hn' : num? w with
      | none => rfl
      | some x =>
          rw [num?_of_same hn' (same_symm hw h)] at hn
          cases hn

/-- With an exact integer the number is the value of its `float()`. -/
theorem number_eq {v : PyValue} (h : v.AllExact) : v.number = (num? v).bind Binary64.value := by
  cases v with
  | int n =>
      have hn : Exact n := h [] n rfl
      show some (n : ℚ) = (num? (.int n)).bind Binary64.value
      rw [num?, if_pos (Binary64.isFinite_of_value hn), Option.bind_some, Binary64.value_normZero]
      exact hn.symm
  | float x =>
      show x.value = (num? (.float x)).bind Binary64.value
      rw [num?]
      split
      next => rw [Option.bind_some, Binary64.value_normZero]
      next hf => exact Binary64.value_eq_none (Bool.eq_false_of_not_eq_true hf)
  | _ => rfl

/-- The same values have the same numbers, if their integers are exact. -/
theorem numberAt_of_same {v w : PyValue} (hw : w.WF) (h : Same v w) (ev : v.AllExact)
    (ew : w.AllExact) (path : List Step) : v.numberAt path = w.numberAt path := by
  induction path generalizing v w with
  | nil => rw [numberAt_nil, numberAt_nil, number_eq ev, number_eq ew, num?_eq_of_same hw h]
  | cons s path ih =>
      rw [numberAt_cons, numberAt_cons]
      have hc := child_of_same hw h s
      generalize hv' : v.child s = cv at hc
      generalize hw' : w.child s = cw at hc
      cases hc with
      | none => rfl
      | some hs => exact ih (wf_of_child hw hw') hs (ev.child hv') (ew.child hw')

/-! ## Assignment -/

@[simp] theorem numberAt_str (s : PyStr) (path : List Step) :
    (PyValue.str s).numberAt path = .none := by
  cases path with
  | nil => rfl
  | cons s path => cases s <;> rfl

/-- Numbers elsewhere do not depend on what is assigned, and where it is assigned
only its own numbers count. -/
theorem numberAt_setStr {v w : PyValue} (h : ∀ path, v.numberAt path = w.numberAt path) (k : String)
    (items : Items) (path : List Step) :
    (PyValue.dict (setStr k v items)).numberAt path =
      (PyValue.dict (setStr k w items)).numberAt path := by
  cases path with
  | nil => rfl
  | cons s path =>
      cases s with
      | index i => rfl
      | key k' =>
          rw [numberAt_cons, numberAt_cons]
          show (getKey k' (setStr k v items)).bind _ = (getKey k' (setStr k w items)).bind _
          by_cases hk : k' = .str (lit k)
          · rw [hk, setStr, setStr, getKey_setKey_self, getKey_setKey_self]
            exact h path
          · rw [setStr, setStr, getKey_setKey_ne hk, getKey_setKey_ne hk]

end PyValue

end Python
