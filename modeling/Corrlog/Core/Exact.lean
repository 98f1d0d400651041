import Corrlog.Core.Family
import Corrlog.Python.Path

/-!
# No integer is signed rounded

The canonical text of an integer is that of its `float()`, so different integers
may have one.  `_check_application_numbers` walks through a value on its own and
raises at an integer that `float()` would round.  The constructors call it on the
dicts that they hash and on the body that they sign, which leaves out the
signature: of its values only `kid` comes from the caller, and the schema wants
a string there.

So a call that returns has rounded nothing (`exact_integers`), and where it does
not, no two calls that sign the same bytes differ in a number.
-/

namespace Corrlog

open Python
open Python.PyValue (AllExact Same)

/-! ## The guard -/

theorem checkApplicationList_eq_ok {xs : List PyValue} :
    checkApplicationList xs = .ok () ↔ ∀ x ∈ xs, checkApplicationNumbers x = .ok () := by
  induction xs with
  | nil => exact iff_of_true rfl (List.forall_mem_nil _)
  | cons x xs ih =>
      rw [checkApplicationList, List.forall_mem_cons, ← ih, bind_eq_ok]
      exact ⟨fun ⟨_, h, h'⟩ => ⟨h, h'⟩, fun h => ⟨(), h⟩⟩

theorem checkApplicationItems_eq_ok {items : Items} :
    checkApplicationItems items = .ok () ↔
      ∀ kv ∈ items, checkApplicationNumbers kv.2 = .ok () := by
  induction items with
  | nil => exact iff_of_true rfl (List.forall_mem_nil _)
  | cons kv items ih =>
      rw [checkApplicationItems, List.forall_mem_cons, ← ih, bind_eq_ok]
      exact ⟨fun ⟨_, h, h'⟩ => ⟨h, h'⟩, fun h => ⟨(), h⟩⟩

/-- The check looks at the values, not at the keys. -/
theorem check_dict {items : Items} :
    checkApplicationNumbers (.dict items) = .ok () ↔
      ∀ kv ∈ items, checkApplicationNumbers kv.2 = .ok () := by
  rw [checkApplicationNumbers, checkApplicationItems_eq_ok]

theorem check_seq {v : PyValue} {xs : List PyValue} (h : v.seq? = some xs) :
    checkApplicationNumbers v = .ok () ↔ ∀ x ∈ xs, checkApplicationNumbers x = .ok () := by
  rcases PyValue.seq?_eq_some_iff.mp h with rfl | rfl
  · rw [checkApplicationNumbers, checkApplicationList_eq_ok]
  · rw [checkApplicationNumbers, checkApplicationList_eq_ok]

theorem exact_of_check_int {n : ℤ} (h : checkApplicationNumbers (.int n) = .ok ()) : Exact n := by
  rw [checkApplicationNumbers] at h
  split at h
  next =>
    split at h
    next heq => exact intEqFloat_iff.mp heq
    next => cases h
  next => cases h

/-- The guard goes wherever a step goes. -/
theorem check_child {v w : PyValue} {s : Step} (h : checkApplicationNumbers v = .ok ())
    (hw : v.child s = some w) : checkApplicationNumbers w = .ok () := by
  cases s with
  | key k =>
      obtain ⟨items, rfl, hget⟩ := PyValue.child_key_eq_some.mp hw
      exact check_dict.mp h _ (mem_of_getKey hget)
  | index i =>
      obtain ⟨xs, hxs, hi⟩ := PyValue.mem_of_child_index hw
      exact (check_seq hxs).mp h w (List.mem_of_getElem? hi)

/-- What has passed has passed at every path. -/
theorem check_get {v w : PyValue} {path : List Step} (h : checkApplicationNumbers v = .ok ())
    (hw : v.get path = some w) : checkApplicationNumbers w = .ok () := by
  induction path generalizing v with
  | nil => cases hw; exact h
  | cons s path ih =>
      obtain ⟨u, hu, hw⟩ := Option.bind_eq_some_iff.mp hw
      exact ih (check_child h hu) hw

/-- A value that passes has no other integers than exact ones. -/
theorem allExact_of_check {v : PyValue} (h : checkApplicationNumbers v = .ok ()) : v.AllExact := by
  intro path n hn
  exact exact_of_check_int (check_get h hn)

theorem check_setStr {k : String} {v : PyValue} {items : Items}
    (hv : checkApplicationNumbers v = .ok ())
    (hi : checkApplicationNumbers (.dict items) = .ok ()) :
    checkApplicationNumbers (.dict (setStr k v items)) = .ok () := by
  rw [check_dict] at hi ⊢
  intro kv hkv
  rcases mem_setKey hkv with rfl | h
  · exact hv
  · exact hi kv h

theorem check_str (s : PyStr) : checkApplicationNumbers (.str s) = .ok () := rfl

/-- A value that is not `None` stays. -/
theorem check_of_orDefault {v d : PyValue} {s : PyStr} (h : orDefault v d = .str s) :
    checkApplicationNumbers v = .ok () := by
  cases v with
  | int n => cases h
  | list xs => cases h
  | tuple xs => cases h
  | dict items => cases h
  | _ => rfl

/-! ## Calls -/

variable {P : Platform} {privateKey : P.PrivateKey}

/-- The arguments of which the body has a hash: `action_args`, `action_result` and
`corrected_content`. -/
def Call.contents : Call → List PyObject
  | .record _ a => [a.actionArgs, a.actionResult]
  | .retract _ a => [a.correctedContent]
  | .unknown _ _ => []

/-- A dict that is hashed has been checked. -/
theorem checked_of_setHash {body body' : PyValue} {k1 k2 : String} {v : PyValue}
    (hcheck : checkDict v = .ok ()) (hset : setHash P body k1 k2 v = .ok body')
    (hv : v.isDict = true) :
    checkApplicationNumbers v = .ok () ∧ ∃ data, canonicalJson v = .ok data := by
  obtain ⟨items, rfl⟩ := PyValue.exists_dict_of_isDict hv
  obtain ⟨data, hdata, _⟩ := bind_eq_ok.mp hset
  exact ⟨hcheck, data, hdata⟩

/-- Dicts among the contents of a call have been checked. -/
theorem Call.contents_checked {c : Call} {b : PyValue} (h : c.body privateKey = .ok b)
    {o : PyObject} (ho : o ∈ c.contents) (hd : o.val.isDict = true) :
    checkApplicationNumbers o.val = .ok () ∧ ∃ data, canonicalJson o.val = .ok data := by
  cases c with
  | record env a =>
      obtain ⟨_, _, h⟩ := bind_eq_ok.mp h
      obtain ⟨_, _, h⟩ := bind_eq_ok.mp h
      obtain ⟨_, hargs, h⟩ := bind_eq_ok.mp h
      obtain ⟨_, hresult, h⟩ := bind_eq_ok.mp h
      obtain ⟨_, h3, h4⟩ := bind_eq_ok.mp h
      rcases List.mem_pair.mp ho with rfl | rfl
      · exact checked_of_setHash hargs h3 hd
      · exact checked_of_setHash hresult h4 hd
  | retract env a =>
      obtain ⟨_, _, h⟩ := bind_eq_ok.mp h
      obtain ⟨_, _, h⟩ := bind_eq_ok.mp h
      obtain ⟨_, _, h⟩ := bind_eq_ok.mp h
      obtain ⟨_, _, h⟩ := bind_eq_ok.mp h
      obtain ⟨_, _, h⟩ := bind_eq_ok.mp h
      obtain ⟨_, hcontent, h⟩ := bind_eq_ok.mp h
      obtain ⟨_, h2, _⟩ := bind_eq_ok.mp h
      cases List.mem_singleton.mp ho
      exact checked_of_setHash hcontent h2 hd
  | unknown env a => exact absurd ho List.not_mem_nil

/-- In an accepted record `kid` is a string. -/
theorem kid_of_valid {kid : PyValue} {data : Bytes} {items : Items}
    (h : validateRecord P (.dict (completed privateKey kid data items)) = .ok ()) :
    ∃ s, kid = .str s := by
  obtain ⟨inner, he, hfields⟩ := (typed_of_valid h).1.kind_of
    (f := ⟨"signature", true, JsonSchema.Record signatureFields⟩) (by simp [recordFields])
    (getStr_setStr_self _ _ _)
  cases he
  have hget : getStr "kid" (setStr "sig" (.str (ofChars (b64url (P.sign privateKey data))))
      (blankSignature P privateKey kid)) = some kid :=
    (getStr_setStr_ne (by decide) _ _).trans ((getStr_members _ _).trans rfl)
  have hholds := hfields ⟨"kid", true, NonEmpty⟩ (by simp [signatureFields])
  rw [JsonSchema.Field.Holds, hget] at hholds
  obtain ⟨s, rfl, _⟩ := hholds
  exact ⟨s, rfl⟩

/-- What a call returns is its body, checked, with a signature of strings. -/
theorem Call.returned {c : Call} {r : PyValue} (h : (c.outcome privateKey).result = .ok r) :
    ∃ items kid data, c.body privateKey = .ok (.dict items) ∧ (PyValue.dict items).WF ∧
      checkApplicationNumbers (.dict items) = .ok () ∧
      orDefault c.kid.val (.str (keyText P privateKey)) = .str kid ∧
      (c.outcome privateKey).signed = some data ∧
      canonicalJson (.dict (blanked privateKey (.str kid) items)) = .ok data ∧
      r = .dict (completed privateKey (.str kid) data items) ∧ validateRecord P r = .ok () := by
  rw [c.outcome_eq] at h ⊢
  obtain ⟨b, data, hb, hdata, hsign, hvalid⟩ := finish_returned h
  obtain ⟨sup, items, agent, rfl, hbody⟩ := c.isBody hb
  obtain ⟨_, hcheck, _⟩ := bind_eq_ok.mp hsign
  obtain ⟨hcanon, rfl⟩ := sign_eq_ok hsign
  obtain ⟨kid, hkid⟩ := kid_of_valid hvalid
  rw [hkid] at hcanon hvalid ⊢
  exact ⟨items, kid, data, hb, hbody.wf, hcheck, rfl, hdata, hcanon, rfl, hvalid⟩

/-! ## Exact integers -/

theorem check_blankSignature (kid : PyStr) :
    checkApplicationNumbers (.dict (blankSignature P privateKey (.str kid))) = .ok () := rfl

theorem check_completed {items : Items} (h : checkApplicationNumbers (.dict items) = .ok ())
    (kid : PyStr) (data : Bytes) :
    checkApplicationNumbers (.dict (completed privateKey (.str kid) data items)) = .ok () :=
  check_setStr (check_setStr (check_str _) (check_blankSignature kid)) h

theorem check_blanked {items : Items} (h : checkApplicationNumbers (.dict items) = .ok ())
    (kid : PyStr) :
    checkApplicationNumbers (.dict (blanked privateKey (.str kid) items)) = .ok () :=
  check_setStr (check_blankSignature kid) h

/-- The signature that is put in has no numbers. -/
theorem numberAt_completed (kid : PyValue) (data : Bytes) (items : Items) (path : List Step) :
    (PyValue.dict (completed privateKey kid data items)).numberAt path =
      (PyValue.dict (blanked privateKey kid items)).numberAt path := by
  rw [completed, blanked, ← sig_blankSignature, setStr_setStr]
  refine PyValue.numberAt_setStr (PyValue.numberAt_setStr ?_ _ _) _ _ _
  intro path
  rw [PyValue.numberAt_str, PyValue.numberAt_str]

/-- Two checked values with the same bytes have the same number at each path. -/
theorem numberAt_of_canonicalJson {v w : PyValue} (hv : v.WF) (hw : w.WF)
    (cv : checkApplicationNumbers v = .ok ()) (cw : checkApplicationNumbers w = .ok ()) {b : Bytes}
    (hb : canonicalJson v = .ok b) (hb' : canonicalJson w = .ok b) (path : List Step) :
    v.numberAt path = w.numberAt path :=
  PyValue.numberAt_of_same hw (same_of_canonicalJson hv hw hb hb') (allExact_of_check cv)
    (allExact_of_check cw) path

/-- In what a call returns and in the dicts it has hashed all integers are exact;
with one that is not it raises; and where two calls that return have signed or
hashed the same bytes, the numbers are the same at every place. -/
theorem exact_integers (P : Platform) (privateKey : P.PrivateKey) (c : Call) :
    (∀ r, (c.outcome privateKey).result = .ok r →
      r.AllExact ∧ ∀ o ∈ c.contents, o.val.isDict = true → o.val.AllExact) ∧
    (∀ v path n, (c.body privateKey = .ok v ∨ v = c.kid.val ∨
        ∃ o ∈ c.contents, o.val.isDict = true ∧ v = o.val) →
      v.get path = some (.int n) → ¬ Exact n → ∃ e, (c.outcome privateKey).result = .error e) ∧
    ∀ (privateKey' : P.PrivateKey) (c' : Call) r r', (c.outcome privateKey).result = .ok r →
      (c'.outcome privateKey').result = .ok r' →
      ((c.outcome privateKey).signed = (c'.outcome privateKey').signed →
        ∀ path, r.numberAt path = r'.numberAt path) ∧
      ∀ o ∈ c.contents, ∀ o' ∈ c'.contents, o.val.isDict = true → o'.val.isDict = true →
        canonicalJson o.val = canonicalJson o'.val →
        ∀ path, o.val.numberAt path = o'.val.numberAt path := by
  refine ⟨fun r hr => ?_, fun v path n hv hn hne => ?_, fun privateKey' c' r r' hr hr' => ⟨?_, ?_⟩⟩
  · obtain ⟨items, kid, data, hbody, _, hcheck, _, _, _, rfl, _⟩ := Call.returned hr
    refine ⟨allExact_of_check (check_completed hcheck kid data), fun o ho hd => ?_⟩
    exact allExact_of_check (c.contents_checked hbody ho hd).1
  · cases hr : (c.outcome privateKey).result with
    | error e => exact ⟨e, rfl⟩
    | ok r =>
        obtain ⟨items, kid, data, hbody, _, hcheck, hkid, _⟩ := Call.returned hr
        refine absurd ?_ hne
        rcases hv with hv | rfl | ⟨o, ho, hd, rfl⟩
        · cases hbody.symm.trans hv
          exact allExact_of_check hcheck path n hn
        · exact allExact_of_check (check_of_orDefault hkid) path n hn
        · exact allExact_of_check (c.contents_checked hbody ho hd).1 path n hn
  · obtain ⟨items, kid, data, _, hwf, hcheck, _, hsigned, hcanon, rfl, _⟩ := Call.returned hr
    obtain ⟨items', kid', data', _, hwf', hcheck', _, hsigned', hcanon', rfl, _⟩ :=
      Call.returned hr'
    intro hsame path
    rw [hsigned, hsigned', Option.some.injEq] at hsame
    subst hsame
    rw [numberAt_completed, numberAt_completed]
    exact numberAt_of_canonicalJson
      (PyValue.wf_setStr (blankSignature_wf (PyValue.wf_str kid)) hwf)
      (PyValue.wf_setStr (blankSignature_wf (PyValue.wf_str kid')) hwf')
      (check_blanked hcheck kid) (check_blanked hcheck' kid') hcanon hcanon' path
  · obtain ⟨items, kid, data, hbody, _⟩ := Call.returned hr
    obtain ⟨items', kid', data', hbody', _⟩ := Call.returned hr'
    intro o ho o' ho' hd hd' hsame path
    obtain ⟨hcheck, b, hb⟩ := c.contents_checked hbody ho hd
    obtain ⟨hcheck', b', hb'⟩ := c'.contents_checked hbody' ho' hd'
    exact numberAt_of_canonicalJson o.wf o'.wf hcheck hcheck' hb (hsame ▸ hb) path

/-- A record with the metadata `{"n": n}` and the arguments `{"n": [n]}`. -/
def Vector.integerArgs (n : ℤ) : RecordArgs :=
  { Vector.recordArgs with
    actionArgs := ⟨dictOf [("n", .list [.int n])], dictOf_wf (by simp) (by simp)⟩
    metadata := ⟨dictOf [("n", .int n)], single_wf (PyValue.wf_int n)⟩ }

/-- A large power of two is signed, and an odd number of about its size is refused. -/
theorem exact_integers_vectors :
    (∃ r, (record Vector.platform () Vector.env (Vector.integerArgs (2 ^ 68))).result = .ok r ∧
      r.AllExact) ∧
    ∃ e, (record Vector.platform () Vector.env (Vector.integerArgs (10 ^ 20 + 1))).result =
      .error e := by
  constructor
  · have hok : (record Vector.platform () Vector.env (Vector.integerArgs (2 ^ 68))).result.isOk =
        true := by decide +kernel
    have hr := Vector.result_eq_returned hok
    exact ⟨_, hr, ((exact_integers Vector.platform () (.record _ _)).1 _ hr).1⟩
  · have hne : ¬ Exact (10 ^ 20 + 1) := by
      intro h
      have hfalse : PyValue.intEqFloat (10 ^ 20 + 1) (Binary64.ofInt (10 ^ 20 + 1)) = false := by
        decide +kernel
      exact Bool.false_ne_true (hfalse.symm.trans (intEqFloat_iff.mpr h))
    refine (exact_integers Vector.platform () (.record _ _)).2.1 _ [.key (.str (lit "n")), .index 0]
      _ (Or.inr (Or.inr ⟨_, List.mem_cons_self, rfl, rfl⟩)) ?_ hne
    rfl

end Corrlog
