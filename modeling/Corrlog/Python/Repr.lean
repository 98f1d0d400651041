import Corrlog.Python.Reload

/-!
# `repr`

`repr` of the values JSON has, as text.  Which characters outside ASCII are
printable is a matter of the Unicode tables, and a parameter here.

A text is `repr` of one JSON value only (`pyRepr_injective`), unlike a canonical
text: the order of members and the kind of a number show.  The proof reads two
texts side by side.  The first character tells what kind of value it is (`tag`),
and a text of that kind can be split off the front of any longer text that does not
prolong a number (`Splits`).
-/

namespace Python

/-! ## Strings -/

/-- The last `w` hexadecimal digits. -/
def hexDigits : ℕ → ℕ → List Char
  | 0, _ => []
  | w + 1, o => hexDigits w (o / 16) ++ [Nat.digitChar (o % 16)]

/-- A code point that is not printable. -/
def escapeCode (o : ℕ) : List Char :=
  if o < 0x100 then '\\' :: 'x' :: hexDigits 2 o
  else if o < 0x10000 then '\\' :: 'u' :: hexDigits 4 o
  else '\\' :: 'U' :: hexDigits 8 o

section

variable (printable : Char → Bool)

/-- One code point of a string in the quotes `q`. -/
def reprEscape (q : Char) (c : CodePoint) : List Char :=
  match c with
  | .surrogate _ => escapeCode (ord c)
  | .scalar ch =>
      if ch = q ∨ ch = '\\' then ['\\', ch]
      else if ch = '\t' then ['\\', 't']
      else if ch = '\n' then ['\\', 'n']
      else if ch = '\r' then ['\\', 'r']
      else if ch.toNat < 0x20 ∨ ch.toNat = 0x7F then escapeCode ch.toNat
      else if ch.toNat < 0x7F ∨ printable ch then [ch]
      else escapeCode ch.toNat

/-- The quotes: double ones if that saves an escape. -/
def quoteOf (s : PyStr) : Char :=
  if CodePoint.scalar '\'' ∈ s ∧ CodePoint.scalar '"' ∉ s then '"' else '\''

/-- `repr(s)` of a string. -/
def strRepr (s : PyStr) : List Char :=
  quoteOf s :: (s.flatMap (reprEscape printable (quoteOf s)) ++ [quoteOf s])

/-! ## Values -/

/-- `repr` of a bool. -/
def boolRepr (b : Bool) : List Char :=
  if b then ['T', 'r', 'u', 'e'] else ['F', 'a', 'l', 's', 'e']

/-- `repr` of an integer: it raises where `str` does. -/
def intReprText (n : ℤ) : Option (List Char) := (intText n).toOption

mutual

/-- `repr(v)` of a JSON value, absent if it raises.  That of a value of another type
is left open. -/
def pyRepr : PyValue → Option (List Char)
  | .none => some ['N', 'o', 'n', 'e']
  | .bool b => some (boolRepr b)
  | .int n => intReprText n
  | .float x => some (floatRepr x)
  | .str s => some (strRepr printable s)
  | .list xs => (pyReprList xs).map fun ts => '[' :: (join [',', ' '] ts ++ [']'])
  | .dict items => (pyReprItems items).map fun ts => '{' :: (join [',', ' '] ts ++ ['}'])
  | .tuple _ => none
  | .other _ => none

/-- `repr` of the elements of a list. -/
def pyReprList : List PyValue → Option (List (List Char))
  | [] => some []
  | x :: xs => do
      let t ← pyRepr x
      let ts ← pyReprList xs
      return t :: ts

/-- `repr` of the keys and the values of a dict. -/
def pyReprItems : Items → Option (List (List Char))
  | [] => some []
  | (.str k, v) :: items => do
      let t ← pyRepr v
      let ts ← pyReprItems items
      return (strRepr printable k ++ ':' :: ' ' :: t) :: ts
  | _ :: _ => none

end

end

mutual

/-- A JSON value as `json.loads` makes it: no tuple, string keys, finite floats. -/
def isJson : PyValue → Bool
  | .none => true
  | .bool _ => true
  | .int _ => true
  | .float x => x.isFinite
  | .str _ => true
  | .list xs => isJsonList xs
  | .tuple _ => false
  | .dict items => isJsonItems items
  | .other _ => false

/-- `isJson` of every element. -/
def isJsonList : List PyValue → Bool
  | [] => true
  | x :: xs => isJson x && isJsonList xs

/-- `isJson` of every value, for keys that are strings. -/
def isJsonItems : Items → Bool
  | [] => true
  | (.str _, v) :: items => isJson v && isJsonItems items
  | _ :: _ => false

end

/-! ## Escapes are split off -/

@[simp] theorem length_hexDigits (w o : ℕ) : (hexDigits w o).length = w := by
  induction w generalizing o with
  | zero => rfl
  | succ w ih => simp [hexDigits, ih]

theorem digitChar_injective {a b : ℕ} (ha : a < 16) (hb : b < 16)
    (h : Nat.digitChar a = Nat.digitChar b) : a = b := by
  have hv := hexVal_digitChar a ha
  rw [h, hexVal_digitChar b hb] at hv
  exact (Option.some.inj hv).symm

/-- Digits of one width determine the number. -/
theorem hexDigits_injective {w a b : ℕ} (ha : a < 16 ^ w) (hb : b < 16 ^ w)
    (h : hexDigits w a = hexDigits w b) : a = b := by
  induction w generalizing a b with
  | zero => omega
  | succ w ih =>
      rw [pow_succ] at ha hb
      obtain ⟨hdiv, hmod⟩ := List.append_inj h (by simp)
      have h1 := ih (Nat.div_lt_of_lt_mul (by omega)) (Nat.div_lt_of_lt_mul (by omega)) hdiv
      have h2 := digitChar_injective (Nat.mod_lt a (by omega)) (Nat.mod_lt b (by omega))
        (List.cons.inj hmod).1
      omega

/-- The number of digits after the letter of an escape. -/
def escapeWidth (k : Char) : ℕ :=
  if k = 'x' then 2 else if k = 'u' then 4 else if k = 'U' then 8 else 0

/-- The code point of an escape without digits. -/
def escapeOrd (k : Char) : ℕ :=
  if k = 't' then 9 else if k = 'n' then 10 else if k = 'r' then 13 else k.toNat

/-- An escape is a backslash, a letter and digits, which determine the code point. -/
def IsEscape (o : ℕ) (t : List Char) : Prop :=
  ∃ k, t = '\\' :: k :: hexDigits (escapeWidth k) o ∧
    (escapeWidth k = 0 ∧ o = escapeOrd k ∨ 0 < escapeWidth k ∧ o < 16 ^ escapeWidth k)

theorem isEscape_escapeCode {o : ℕ} (ho : o < 0x110000) : IsEscape o (escapeCode o) := by
  unfold escapeCode
  split
  next h => exact ⟨'x', rfl, Or.inr ⟨by decide, h⟩⟩
  next =>
    split
    next h => exact ⟨'u', rfl, Or.inr ⟨by decide, h⟩⟩
    next => exact ⟨'U', rfl, Or.inr ⟨by decide, by show o < 16 ^ 8; omega⟩⟩

variable {printable : Char → Bool} {q : Char}

/-- A code point is itself or an escape. -/
theorem reprEscape_cases (printable : Char → Bool) (hq : q = '\'' ∨ q = '"') (c : CodePoint) :
    (∃ ch, c = .scalar ch ∧ reprEscape printable q c = [ch] ∧ ch ≠ '\\' ∧ ch ≠ q) ∨
      IsEscape (ord c) (reprEscape printable q c) := by
  cases c with
  | surrogate s => exact Or.inr (isEscape_escapeCode (ord_lt _))
  | scalar ch =>
      rw [reprEscape]
      split
      next h =>
        right
        have hplain : escapeWidth ch = 0 ∧ ch.toNat = escapeOrd ch := by
          rcases h with rfl | rfl
          · rcases hq with rfl | rfl <;> decide
          · decide
        refine ⟨ch, ?_, Or.inl hplain⟩
        rw [hplain.1]
        rfl
      next h =>
        obtain ⟨hne, hback⟩ := not_or.mp h
        split
        next ht => exact Or.inr ⟨'t', rfl, Or.inl ⟨rfl, ht ▸ rfl⟩⟩
        split
        next hn => exact Or.inr ⟨'n', rfl, Or.inl ⟨rfl, hn ▸ rfl⟩⟩
        split
        next hr => exact Or.inr ⟨'r', rfl, Or.inl ⟨rfl, hr ▸ rfl⟩⟩
        split
        next => exact Or.inr (isEscape_escapeCode (ord_lt (.scalar ch)))
        split
        next => exact Or.inl ⟨ch, rfl, rfl, hback, hne⟩
        next => exact Or.inr (isEscape_escapeCode (ord_lt (.scalar ch)))

/-- An escape says where it ends. -/
theorem IsEscape.split {o o' : ℕ} {t t' x y : List Char} (h : IsEscape o t) (h' : IsEscape o' t')
    (he : t ++ x = t' ++ y) : o = o' ∧ x = y := by
  obtain ⟨k, rfl, hk⟩ := h
  obtain ⟨k', rfl, hk'⟩ := h'
  simp only [List.cons_append, List.cons.injEq, true_and] at he
  obtain ⟨rfl, he⟩ := he
  obtain ⟨hd, hxy⟩ := List.append_inj he (by simp)
  refine ⟨?_, hxy⟩
  rcases hk with ⟨hw, hk⟩ | ⟨hw, hk⟩
  · rcases hk' with ⟨_, hk'⟩ | ⟨hw', _⟩
    · rw [hk, hk']
    · omega
  · rcases hk' with ⟨hw', _⟩ | ⟨_, hk'⟩
    · omega
    · exact hexDigits_injective hk hk' hd

/-- The text of one character within quotes says where it ends. -/
theorem reprEscape_split (hq : q = '\'' ∨ q = '"') {c d : CodePoint} {x y : List Char}
    (h : reprEscape printable q c ++ x = reprEscape printable q d ++ y) : c = d ∧ x = y := by
  rcases reprEscape_cases printable hq c with ⟨ch, rfl, hc, hback, _⟩ | hc
  · rcases reprEscape_cases printable hq d with ⟨dh, rfl, hd, _, _⟩ | hd
    · rw [hc, hd] at h
      obtain ⟨rfl, hxy⟩ := List.cons.inj h
      exact ⟨rfl, hxy⟩
    · obtain ⟨k, hk, _⟩ := hd
      rw [hc, hk] at h
      exact absurd (List.cons.inj h).1 hback
  · rcases reprEscape_cases printable hq d with ⟨dh, rfl, hd, hback, _⟩ | hd
    · obtain ⟨k, hk, _⟩ := hc
      rw [hd, hk] at h
      exact absurd (List.cons.inj h).1.symm hback
    · obtain ⟨ho, hxy⟩ := hc.split hd h
      exact ⟨ord_injective ho, hxy⟩

/-- No code point is written with a closing quote first. -/
theorem reprEscape_ne_quote (hq : q = '\'' ∨ q = '"') {c : CodePoint} {x y : List Char} :
    reprEscape printable q c ++ x ≠ q :: y := by
  intro h
  rcases reprEscape_cases printable hq c with ⟨ch, _, hc, _, hne⟩ | hc
  · rw [hc] at h
    exact hne (List.cons.inj h).1
  · obtain ⟨k, hk, _⟩ := hc
    rw [hk] at h
    rcases hq with rfl | rfl <;> exact absurd (List.cons.inj h).1 (by decide)

/-- The text of a string ends at its quote. -/
theorem strBody_split (hq : q = '\'' ∨ q = '"') :
    ∀ {s s' : PyStr} {x y : List Char},
      s.flatMap (reprEscape printable q) ++ q :: x = s'.flatMap (reprEscape printable q) ++ q :: y →
        s = s' ∧ x = y
  | [], [], _, _, h => ⟨rfl, (List.cons.inj h).2⟩
  | [], d :: s', _, _, h => by
      rw [List.flatMap_cons, List.append_assoc] at h
      exact absurd h.symm (reprEscape_ne_quote hq)
  | c :: s, [], _, _, h => by
      rw [List.flatMap_cons, List.append_assoc] at h
      exact absurd h (reprEscape_ne_quote hq)
  | c :: s, d :: s', _, _, h => by
      rw [List.flatMap_cons, List.flatMap_cons, List.append_assoc, List.append_assoc] at h
      obtain ⟨hcd, hrest⟩ := reprEscape_split hq h
      obtain ⟨hs, hxy⟩ := strBody_split hq hrest
      exact ⟨by rw [hcd, hs], hxy⟩

theorem quoteOf_cases (s : PyStr) : quoteOf s = '\'' ∨ quoteOf s = '"' := by
  unfold quoteOf
  split
  · exact Or.inr rfl
  · exact Or.inl rfl

/-- The text of a string determines the string, whatever follows. -/
theorem strRepr_split {s s' : PyStr} {x y : List Char}
    (h : strRepr printable s ++ x = strRepr printable s' ++ y) : s = s' ∧ x = y := by
  rw [strRepr, strRepr, List.cons_append, List.cons_append, List.append_assoc, List.append_assoc]
    at h
  obtain ⟨hq, h⟩ := List.cons.inj h
  rw [hq] at h
  exact strBody_split (quoteOf_cases s') h

/-! ## Values are split off -/

/-- The kind of a value, numbers being of one kind. -/
def tag : PyValue → ℕ
  | .none => 0
  | .bool true => 1
  | .bool false => 2
  | .int _ => 3
  | .float _ => 3
  | .str _ => 4
  | .list _ => 5
  | .dict _ => 6
  | .tuple _ => 7
  | .other _ => 8

/-- The kind of a value whose text starts with the character. -/
def tagOf (c : Char) : ℕ :=
  if c = 'N' then 0 else if c = 'T' then 1 else if c = 'F' then 2
  else if c = '\'' ∨ c = '"' then 4 else if c = '[' then 5 else if c = '{' then 6
  else if c = ']' ∨ c = '}' then 9 else 3

/-- The end of the text, or what may follow an element. -/
def Stop (r : List Char) : Prop := ∀ c ∈ r.head?, c = ',' ∨ c = ']' ∨ c = '}'

theorem stop_nil : Stop [] := fun _ h => by cases h

theorem stop_cons {c : Char} (h : c = ',' ∨ c = ']' ∨ c = '}') (r : List Char) : Stop (c :: r) := by
  intro d hd
  cases hd
  exact h

theorem Stop.terminated {r : List Char} (h : Stop r) : Terminated r := by
  intro c hc
  rcases h c hc with rfl | rfl | rfl <;> rfl

theorem tagOf_number {c : Char} (h : c.isDigit = true ∨ c = '-') : tagOf c = 3 := by
  have hne {d : Char} (hd : d.isDigit = false) (hm : d ≠ '-') : c ≠ d := by
    rintro rfl
    rcases h with h | h
    · rw [hd] at h
      cases h
    · exact hm h
  rw [tagOf, if_neg (hne rfl (by decide)), if_neg (hne rfl (by decide)),
    if_neg (hne rfl (by decide)), if_neg (not_or.mpr ⟨hne rfl (by decide), hne rfl (by decide)⟩),
    if_neg (hne rfl (by decide)), if_neg (hne rfl (by decide)),
    if_neg (not_or.mpr ⟨hne rfl (by decide), hne rfl (by decide)⟩)]

theorem tagOf_literal {l : NumLit} (hl : l.Valid) : ∃ c s, l.text = c :: s ∧ tagOf c = 3 := by
  obtain ⟨c, cs, hip, hc⟩ := hl.ip_cons
  cases hneg : l.neg with
  | true => exact ⟨'-', l.body, by rw [NumLit.text, hneg]; rfl, tagOf_number (Or.inr rfl)⟩
  | false =>
      refine ⟨c, cs ++ (NumLit.fracText l.fp ++ NumLit.expText l.ex), ?_, tagOf_number (Or.inl hc)⟩
      rw [NumLit.text, NumLit.body, hneg, hip]
      rfl

/-- The literal of a number. -/
theorem exists_literal {v : PyValue} (hj : isJson v = true) (hv : tag v = 3) {t : List Char}
    (ht : pyRepr printable v = some t) :
    ∃ l : NumLit, l.Valid ∧ t = l.text ∧ litValue l = some v := by
  cases v with
  | int n =>
      rw [pyRepr, intReprText, intText] at ht
      split at ht
      next h =>
        cases ht
        exact ⟨intLit n, intLit_valid n, rfl, litValue_intLit h⟩
      next => cases ht
  | float x =>
      cases x with
      | finite neg m =>
          rw [pyRepr, floatRepr, Option.some.injEq] at ht
          obtain ⟨hl, hd, hf⟩ := finiteLit_spec neg m
          exact ⟨finiteLit neg m.val, hl, ht.symm, by rw [litValue_float hf, hd]⟩
      | inf neg => cases hj
      | nan => cases hj
  | bool b => cases b <;> cases hv
  | _ => cases hv

/-- The first character tells the kind. -/
theorem tagOf_head {v : PyValue} (hj : isJson v = true) {t : List Char}
    (ht : pyRepr printable v = some t) : ∃ c s, t = c :: s ∧ tagOf c = tag v := by
  cases v with
  | int n =>
      obtain ⟨l, hl, rfl, _⟩ := exists_literal hj rfl ht
      exact tagOf_literal hl
  | float x =>
      obtain ⟨l, hl, rfl, _⟩ := exists_literal hj rfl ht
      exact tagOf_literal hl
  | none => cases ht; exact ⟨_, _, rfl, rfl⟩
  | bool b => cases b <;> (cases ht; exact ⟨_, _, rfl, rfl⟩)
  | str s =>
      cases ht
      refine ⟨_, _, rfl, ?_⟩
      rcases quoteOf_cases s with h | h <;> (rw [h]; rfl)
  | list xs =>
      obtain ⟨ts, _, rfl⟩ := Option.map_eq_some_iff.mp ht
      exact ⟨_, _, rfl, rfl⟩
  | dict items =>
      obtain ⟨ts, _, rfl⟩ := Option.map_eq_some_iff.mp ht
      exact ⟨_, _, rfl, rfl⟩
  | tuple xs => cases hj
  | other o => cases hj

/-- Two texts that agree up to what follows them. -/
def Splits {α : Type} (f : α → Option (List Char)) (a b : α) : Prop :=
  ∀ t u x y, f a = some t → f b = some u → Stop x → Stop y → t ++ x = u ++ y → a = b ∧ x = y

section

variable {α : Type} {f : α → Option (List Char)} {close : Char}

/-- What follows the first of the joined texts `ts`, of which `close` follows the last. -/
def rest (close : Char) (x : List Char) : List (List Char) → List Char
  | [] => close :: x
  | t :: ts => ',' :: ' ' :: (join [',', ' '] (t :: ts) ++ close :: x)

theorem join_rest (t : List Char) (ts : List (List Char)) (x : List Char) :
    join [',', ' '] (t :: ts) ++ close :: x = t ++ rest close x ts := by
  cases ts with
  | nil => rfl
  | cons t' ts => rw [join_cons_append]; rfl

theorem stop_rest (hclose : close = ']' ∨ close = '}') (x : List Char) (ts : List (List Char)) :
    Stop (rest close x ts) := by
  cases ts with
  | nil => exact stop_cons (Or.inr hclose) x
  | cons t ts => exact stop_cons (Or.inl rfl) _

/-- A list of texts cannot both end and go on. -/
theorem join_ne_close (hne : ∀ a t, f a = some t → ∃ c s, t = c :: s ∧ c ≠ close) {a : α}
    {t : List Char} (ht : f a = some t) (ts : List (List Char)) (x y : List Char) :
    join [',', ' '] (t :: ts) ++ close :: x ≠ close :: y := by
  obtain ⟨c, s, rfl, hc⟩ := hne a t ht
  rw [join_rest]
  intro h
  exact hc (List.cons.inj h).1

/-- Joined texts are split off up to the closing character, if each of them is. -/
theorem join_split (hclose : close = ']' ∨ close = '}')
    (hne : ∀ a t, f a = some t → ∃ c s, t = c :: s ∧ c ≠ close) {as : List α} :
    ∀ {bs : List α} {ts us : List (List Char)} {x y : List Char}, (∀ a ∈ as, ∀ b, Splits f a b) →
      List.Forall₂ (fun a t => f a = some t) as ts →
      List.Forall₂ (fun b u => f b = some u) bs us →
      join [',', ' '] ts ++ close :: x = join [',', ' '] us ++ close :: y → as = bs ∧ x = y := by
  induction as with
  | nil =>
      intro bs ts us x y _ hts hus h
      cases hts
      cases hus with
      | nil => exact ⟨rfl, (List.cons.inj h).2⟩
      | cons hb _ => exact absurd h.symm (join_ne_close hne hb _ _ _)
  | cons a as ih =>
      intro bs ts us x y hsplit hts hus h
      obtain ⟨hsa, hsas⟩ := List.forall_mem_cons.mp hsplit
      cases hts with
      | cons ha hts =>
          cases hus with
          | nil => exact absurd h (join_ne_close hne ha _ _ _)
          | cons hb hus =>
              rw [join_rest, join_rest] at h
              obtain ⟨rfl, h⟩ := hsa _ _ _ _ _ ha hb (stop_rest hclose _ _) (stop_rest hclose _ _) h
              have hcomma : close ≠ ',' := by rcases hclose with rfl | rfl <;> decide
              cases hts with
              | nil =>
                  cases hus with
                  | nil => exact ⟨rfl, (List.cons.inj h).2⟩
                  | cons _ _ => exact absurd (List.cons.inj h).1 hcomma
              | cons ha' hts =>
                  cases hus with
                  | nil => exact absurd (List.cons.inj h).1.symm hcomma
                  | cons hb' hus =>
                      obtain ⟨has, hxy⟩ := ih hsas (.cons ha' hts) (.cons hb' hus)
                        (List.cons.inj (List.cons.inj h).2).2
                      exact ⟨by rw [has], hxy⟩

end

/-- `repr` of a JSON value. -/
def jsonRepr (printable : Char → Bool) (v : PyValue) : Option (List Char) :=
  if isJson v then pyRepr printable v else none

/-- The text of a member. -/
def memberRepr (printable : Char → Bool) (kv : PyKey × PyValue) : Option (List Char) :=
  match kv.1 with
  | .str k => (jsonRepr printable kv.2).map fun t => strRepr printable k ++ ':' :: ' ' :: t
  | _ => none

/-- The text of a value, if it is a JSON value. -/
theorem jsonRepr_eq_some {v : PyValue} {t : List Char} :
    jsonRepr printable v = some t ↔ isJson v = true ∧ pyRepr printable v = some t := by
  rw [jsonRepr]
  split
  next h => exact ⟨fun ht => ⟨h, ht⟩, fun ht => ht.2⟩
  next h => exact iff_of_false (fun h => by cases h) fun ht => h ht.1

theorem forall₂_jsonRepr {xs : List PyValue} {ts : List (List Char)} (hj : isJsonList xs = true)
    (h : pyReprList printable xs = some ts) :
    List.Forall₂ (fun x t => jsonRepr printable x = some t) xs ts := by
  induction xs generalizing ts with
  | nil => cases h; exact .nil
  | cons x xs ih =>
      rw [isJsonList, Bool.and_eq_true] at hj
      obtain ⟨t, ht, h⟩ := Option.bind_eq_some_iff.mp h
      obtain ⟨us, hus, h⟩ := Option.bind_eq_some_iff.mp h
      cases h
      exact .cons (jsonRepr_eq_some.mpr ⟨hj.1, ht⟩) (ih hj.2 hus)

theorem forall₂_memberRepr {items : Items} {ts : List (List Char)} (hj : isJsonItems items = true)
    (h : pyReprItems printable items = some ts) :
    List.Forall₂ (fun kv t => memberRepr printable kv = some t) items ts := by
  induction items generalizing ts with
  | nil => cases h; exact .nil
  | cons kv items ih =>
      obtain ⟨k, v⟩ := kv
      cases k with
      | str k =>
          rw [isJsonItems, Bool.and_eq_true] at hj
          obtain ⟨t, ht, h⟩ := Option.bind_eq_some_iff.mp h
          obtain ⟨us, hus, h⟩ := Option.bind_eq_some_iff.mp h
          cases h
          refine .cons ?_ (ih hj.2 hus)
          rw [memberRepr]
          dsimp only
          rw [jsonRepr_eq_some.mpr ⟨hj.1, ht⟩, Option.map_some]
      | _ => cases hj

theorem memberRepr_splits {kv : PyKey × PyValue}
    (h : ∀ w, Splits (jsonRepr printable) kv.2 w) (kw : PyKey × PyValue) :
    Splits (memberRepr printable) kv kw := by
  intro t u x y ht hu hx hy he
  obtain ⟨k, v⟩ := kv
  obtain ⟨l, w⟩ := kw
  cases k with
  | str k =>
      cases l with
      | str l =>
          obtain ⟨t, hv, rfl⟩ := Option.map_eq_some_iff.mp ht
          obtain ⟨u, hw, rfl⟩ := Option.map_eq_some_iff.mp hu
          rw [List.append_assoc, List.append_assoc] at he
          obtain ⟨hkl, hrest⟩ := strRepr_split he
          obtain ⟨hvw, hxy⟩ := h w t u x y hv hw hx hy (List.cons.inj (List.cons.inj hrest).2).2
          exact ⟨Prod.ext (by rw [hkl]) hvw, hxy⟩
      | _ => cases hu
  | _ => cases ht

theorem tag_le (v : PyValue) : tag v ≤ 8 := by
  cases v with
  | bool b => cases b <;> simp [tag]
  | _ => simp [tag]

theorem jsonRepr_ne_close {close : Char} (hclose : close = ']' ∨ close = '}') (v : PyValue)
    (t : List Char) (h : jsonRepr printable v = some t) : ∃ c s, t = c :: s ∧ c ≠ close := by
  obtain ⟨hj, ht⟩ := jsonRepr_eq_some.mp h
  obtain ⟨c, s, rfl, hc⟩ := tagOf_head hj ht
  refine ⟨c, s, rfl, ?_⟩
  rintro rfl
  have hle := tag_le v
  have h9 : tagOf c = 9 := by rcases hclose with rfl | rfl <;> decide
  omega

theorem memberRepr_ne_close {close : Char} (hclose : close = ']' ∨ close = '}')
    (kv : PyKey × PyValue) (t : List Char) (h : memberRepr printable kv = some t) :
    ∃ c s, t = c :: s ∧ c ≠ close := by
  obtain ⟨k, v⟩ := kv
  cases k with
  | str k =>
      obtain ⟨t, _, rfl⟩ := Option.map_eq_some_iff.mp h
      refine ⟨_, _, rfl, ?_⟩
      rcases quoteOf_cases k with hq | hq <;> rw [hq] <;>
        rcases hclose with rfl | rfl <;> decide
  | _ => cases h

/-- Values whose texts agree up to what follows are of one kind. -/
theorem tag_eq_of_append {v w : PyValue} {t u x y : List Char} (hv : jsonRepr printable v = some t)
    (hw : jsonRepr printable w = some u) (h : t ++ x = u ++ y) : tag v = tag w := by
  obtain ⟨hjv, ht⟩ := jsonRepr_eq_some.mp hv
  obtain ⟨hjw, hu⟩ := jsonRepr_eq_some.mp hw
  obtain ⟨c, s, rfl, hc⟩ := tagOf_head hjv ht
  obtain ⟨d, s', rfl, hd⟩ := tagOf_head hjw hu
  rw [← hc, ← hd, (List.cons.inj h).1]

/-- The text of a number is split off. -/
theorem number_splits {v : PyValue} (hv : tag v = 3) (w : PyValue) :
    Splits (jsonRepr printable) v w := by
  intro t u x y ht hu hx hy he
  have hw : tag w = 3 := (tag_eq_of_append ht hu he).symm.trans hv
  obtain ⟨hjv, htv⟩ := jsonRepr_eq_some.mp ht
  obtain ⟨hjw, htw⟩ := jsonRepr_eq_some.mp hu
  obtain ⟨l, hl, rfl, hlv⟩ := exists_literal hjv hv htv
  obtain ⟨l', hl', rfl, hlw⟩ := exists_literal hjw hw htw
  have hscan := scanLit_text hl hx.terminated
  rw [he, scanLit_text hl' hy.terminated, Option.some.injEq, Prod.mk.injEq] at hscan
  obtain ⟨rfl, rfl⟩ := hscan
  rw [hlv, Option.some.injEq] at hlw
  exact ⟨hlw, rfl⟩

/-- A value that its first character tells. -/
theorem splits_of_tag {v w : PyValue} (h : tag v = tag w → v = w) :
    Splits (jsonRepr printable) v w := by
  intro t u x y ht hu _ _ he
  obtain rfl := h (tag_eq_of_append ht hu he)
  rw [ht, Option.some.injEq] at hu
  subst hu
  exact ⟨rfl, List.append_cancel_left he⟩

/-- The text of a JSON value is split off. -/
theorem jsonRepr_splits (v w : PyValue) : Splits (jsonRepr printable) v w := by
  induction v generalizing w with
  | int n => exact number_splits rfl w
  | float x => exact number_splits rfl w
  | none =>
      refine splits_of_tag fun htag => ?_
      cases w with
      | none => rfl
      | bool b => cases b <;> cases htag
      | _ => cases htag
  | bool b =>
      refine splits_of_tag fun htag => ?_
      cases w with
      | bool b' => cases b <;> cases b' <;> first | rfl | cases htag
      | _ => cases b <;> cases htag
  | str s =>
      intro t u x y ht hu hx hy he
      have htag := tag_eq_of_append ht hu he
      cases w with
      | str s' =>
          cases ht
          cases hu
          obtain ⟨rfl, hxy⟩ := strRepr_split he
          exact ⟨rfl, hxy⟩
      | bool b => cases b <;> cases htag
      | _ => cases htag
  | list xs ih =>
      intro t u x y ht hu hx hy he
      have htag := tag_eq_of_append ht hu he
      cases w with
      | list ys =>
          obtain ⟨hjx, ht⟩ := jsonRepr_eq_some.mp ht
          obtain ⟨hjy, hu⟩ := jsonRepr_eq_some.mp hu
          obtain ⟨ts, hts, rfl⟩ := Option.map_eq_some_iff.mp ht
          obtain ⟨us, hus, rfl⟩ := Option.map_eq_some_iff.mp hu
          rw [List.cons_append, List.cons_append, List.append_assoc, List.append_assoc] at he
          obtain ⟨rfl, hxy⟩ := join_split (Or.inl rfl) (jsonRepr_ne_close (Or.inl rfl)) ih
            (forall₂_jsonRepr hjx hts) (forall₂_jsonRepr hjy hus) (List.cons.inj he).2
          exact ⟨rfl, hxy⟩
      | bool b => cases b <;> cases htag
      | _ => cases htag
  | dict items ih =>
      intro t u x y ht hu hx hy he
      have htag := tag_eq_of_append ht hu he
      cases w with
      | dict items' =>
          obtain ⟨hjx, ht⟩ := jsonRepr_eq_some.mp ht
          obtain ⟨hjy, hu⟩ := jsonRepr_eq_some.mp hu
          obtain ⟨ts, hts, rfl⟩ := Option.map_eq_some_iff.mp ht
          obtain ⟨us, hus, rfl⟩ := Option.map_eq_some_iff.mp hu
          rw [List.cons_append, List.cons_append, List.append_assoc, List.append_assoc] at he
          obtain ⟨rfl, hxy⟩ := join_split (Or.inr rfl) (memberRepr_ne_close (Or.inr rfl))
            (fun kv hkv => memberRepr_splits (ih kv hkv)) (forall₂_memberRepr hjx hts)
            (forall₂_memberRepr hjy hus) (List.cons.inj he).2
          exact ⟨rfl, hxy⟩
      | bool b => cases b <;> cases htag
      | _ => cases htag
  | tuple xs => intro t u x y ht; cases ht
  | other o => intro t u x y ht; cases ht

/-- A text is `repr` of one JSON value. -/
theorem pyRepr_injective {v w : PyValue} (hv : isJson v = true) (hw : isJson w = true)
    {t : List Char} (ht : pyRepr printable v = some t) (hu : pyRepr printable w = some t) : v = w :=
  (jsonRepr_splits v w t t [] [] (jsonRepr_eq_some.mpr ⟨hv, ht⟩) (jsonRepr_eq_some.mpr ⟨hw, hu⟩)
    stop_nil stop_nil rfl).1

end Python
