import SipRouter.Registrar.Save

/-!
# The limit of contacts

`test_max_contacts` counts a contact of the message as `update` does if and only if a
contact with its URI is stored in the unchanged record exactly when `update` comes to find
a valid one for it. Where this is so for all contacts the limit is kept, and no REGISTER
is refused that would keep it.
-/

namespace SipRouter.Registrar

open Usrloc List Bool

/-! ## One contact of the message -/

/-- The contacts of the message that are not removed get an expiry time to come. -/
def Lasting (cfg : Config) (now : Int) (m : Register) (cs : List Contact) : Prop :=
  ∀ c ∈ cs, calcContactExpires cfg now m c.expires ≠ 0 → now < calcContactExpires cfg now m c.expires

/-- What `update` finds for a contact of the message is valid. -/
def FindsValid (now : Int) (c : Contact) (l : List UContact) : Prop :=
  ((getUcontactByInstance c.uri c.inst l).bind (l[·]?)).any (UContact.valid now) = true

/-- A contact with the URI is stored. -/
def Stored (c : Contact) (l : List UContact) : Prop := (getUcontact c.uri l).isSome = true

instance (now c l) : Decidable (FindsValid now c l) := inferInstanceAs (Decidable (_ = true))

instance (c l) : Decidable (Stored c l) := inferInstanceAs (Decidable (_ = true))

variable {now : Int} {cfg : Config} {c : Contact} {l : List UContact}

theorem getUcontactByInstance_some {i} (h : getUcontactByInstance c.uri c.inst l = some i) :
    ∃ l₁ p l₂, l = l₁ ++ p :: l₂ ∧ i = l₁.length := by
  have hlt : i < l.length := by
    unfold getUcontactByInstance at h
    cases hinst : c.inst with
    | none =>
      rw [hinst] at h
      exact (findIdx?_eq_some_iff_getElem.1 h).1
    | some j =>
      rw [hinst] at h
      exact (findIdx?_eq_some_iff_getElem.1 h).1
  exact ⟨l.take i, l[i], l.drop (i + 1), by simp, by simp; omega⟩

theorem findsValid_iff (now : Int) {l₁ p l₂}
    (h : getUcontactByInstance c.uri c.inst (l₁ ++ p :: l₂) = some l₁.length) :
    FindsValid now c (l₁ ++ p :: l₂) ↔ p.valid now = true := by
  simp [FindsValid, h]

variable {a : UArgs} {k : Nat} {num e : Int} {cs : List Contact} {l' : List UContact} {x p : UContact} {m : Register}
  {mem : Memory}

theorem updateUcontact_ok {alloc} (h : ¬(updateUcontact alloc a p).2 < 0) :
    (updateUcontact alloc a p).1.expires = a.expires := by
  unfold updateUcontact at h ⊢
  cases hm : memUpdateUcontact alloc a p with
  | error x => simp [hm] at h
  | ok x =>
    obtain ⟨-, -, hexp, -⟩ := memUpdateUcontact_ok hm
    cases hst : x.state <;> simpa [stUpdateUcontact, hst] using hexp

theorem valid_of_expires (h : now < x.expires) : x.valid now = true := by
  simp [UContact.valid, h]

theorem contactArgs_ok {noQ noCseq noRecv} (h : contactArgs m c e noQ noCseq noRecv = .ok a) : a.expires = e := by
  unfold contactArgs at h
  split at h <;> cases h
  rfl

theorem memInsertUcontact_at (desc : Bool) (a l) :
    ∃ l₁ l₂, l = l₁ ++ l₂ ∧ memInsertUcontact desc a l = l₁ ++ newUcontact a :: l₂ := by
  cases desc with
  | true => exact ⟨[], l, rfl, rfl⟩
  | false => exact ⟨_, _, (takeWhile_append_dropWhile (p := fun p => decide (a.q ≤ p.q)) (l := l)).symm, rfl⟩

/-- A contact that is kept for the timer is not valid. -/
theorem stDeleteUcontact_some {c} (h : stDeleteUcontact c = some x) : x.expires = 0 ∧ x.flags &&& flPermanent = 0 := by
  have hflag : c.flags &&& ~~~flPermanent &&& flPermanent = 0 := by
    rw [BitVec.and_assoc, BitVec.and_comm (~~~flPermanent)]
    simp
  unfold stDeleteUcontact at h
  cases hs : c.state <;> rw [hs] at h <;> cases h
  all_goals exact ⟨rfl, hflag⟩

theorem numValid_append (l₁ l₂ : List UContact) : numValid now (l₁ ++ l₂) = numValid now l₁ + numValid now l₂ :=
  countP_append ..

theorem numValid_cons (p : UContact) (l : List UContact) :
    numValid now (p :: l) = numValid now l + (if p.valid now = true then 1 else 0) :=
  countP_cons ..

/-- A contact that is deleted is valid no more. -/
theorem numValid_deleteContact (hnow : 0 ≤ now) (l₁ p l₂) :
    numValid now (deleteContact cfg l₁.length ((l₁ ++ p :: l₂).modify l₁.length (markMem m))) =
      numValid now l₁ + numValid now l₂ := by
  have hmod : (l₁ ++ p :: l₂).modify l₁.length (markMem m) = l₁ ++ markMem m p :: l₂ := by
    simp [modify_eq_set_getElem?]
  have herase : (l₁ ++ markMem m p :: l₂).eraseIdx l₁.length = l₁ ++ l₂ := by simp [eraseIdx_append_of_length_le]
  rw [hmod, deleteContact]
  by_cases hwb : cfg.writeBack = true
  · have hget : (l₁ ++ markMem m p :: l₂)[l₁.length]? = some (markMem m p) := by simp
    rw [if_pos hwb, deleteUcontact, hget]
    dsimp only
    cases hst : stDeleteUcontact (markMem m p) with
    | none => rw [herase, numValid_append]
    | some x =>
      obtain ⟨hexp, hflags⟩ := stDeleteUcontact_some hst
      have hset : (l₁ ++ markMem m p :: l₂).set l₁.length x = l₁ ++ x :: l₂ := by simp
      have hx : ¬ x.valid now = true := by simp [UContact.valid, hexp, hflags, hnow]
      dsimp only
      rw [hset, numValid_append, numValid_cons, if_neg hx]
      rfl
  · rw [if_neg hwb, herase, numValid_append]

/-- A contact that lasts is one more valid contact. -/
theorem numValid_insert (hlt : now < e) {noQ noCseq noRecv}
    (h : contactArgs m c e noQ noCseq noRecv = .ok a) (desc l) :
    numValid now (memInsertUcontact desc a l) = numValid now l + 1 := by
  obtain ⟨l₁, l₂, rfl, heq⟩ := memInsertUcontact_at desc a l
  have hx : (newUcontact a).valid now = true := by
    refine valid_of_expires (show now < a.expires from ?_)
    rw [contactArgs_ok h]
    exact hlt
  rw [heq, numValid_append, numValid_append, numValid_cons, if_pos hx]
  omega

/-- What `update` does to the number of valid contacts: one more if the contact is not removed, one
less if it finds a valid one. -/
theorem updateOne_numValid (hnow : 0 ≤ now) (hlast : Lasting cfg now m [c])
    (h : updateOne cfg now mem m k c l = .ok l') : (numValid now l' : Int) + (if FindsValid now c l then 1 else 0) =
      numValid now l + (if calcContactExpires cfg now m c.expires ≠ 0 then 1 else 0) := by
  have hvalid := hlast c mem_cons_self
  unfold updateOne at h
  dsimp only at h
  generalize calcContactExpires cfg now m c.expires = e at h hvalid ⊢
  cases hget : getUcontactByInstance c.uri c.inst l with
  | none =>
    have hnone : ¬ FindsValid now c l := by simp [FindsValid, hget]
    simp only [hget] at h
    rw [if_neg hnone]
    by_cases he : e = 0
    · rw [if_pos he] at h
      cases h
      rw [if_neg (not_not.2 he)]
    · rw [if_neg he] at h
      cases hargs : contactArgs m c e (-2, .invQ) (-3, .invCseq) (-4, .ulInsC) with
      | error x => simp [hargs] at h
      | ok a =>
        simp only [hargs] at h
        split_ifs at h
        cases h
        rw [numValid_insert (hvalid he) hargs, if_pos he]
        push_cast
        omega
  | some i =>
    obtain ⟨l₁, p, l₂, rfl, rfl⟩ := getUcontactByInstance_some hget
    have hfinds := findsValid_iff now hget
    simp only [hget] at h
    rw [numValid_append, numValid_cons]
    simp only [hfinds]
    by_cases he : e = 0
    · rw [if_pos he] at h
      cases h
      rw [numValid_deleteContact hnow, if_neg (not_not.2 he)]
      push_cast
      omega
    · rw [if_neg he] at h
      cases hargs : contactArgs m c e (-6, .invQ) (-7, .invCseq) (-4, .ulUpdC) with
      | error x => simp [hargs] at h
      | ok a =>
        have hat : (l₁ ++ p :: l₂)[l₁.length]? = some p := by simp
        have hset : ∀ x, (l₁ ++ p :: l₂).set l₁.length x = l₁ ++ x :: l₂ := fun x => by simp
        simp only [hargs, hat] at h
        split_ifs at h with hneg
        cases h
        have hnew : (updateUcontact (mem.update k) a p).1.valid now = true := by
          refine valid_of_expires ?_
          rw [updateUcontact_ok hneg, contactArgs_ok hargs]
          exact hvalid he
        rw [hset, numValid_append, numValid_cons, if_pos hnew, if_pos he]
        push_cast
        omega

/-! ## All contacts of the message -/

theorem testLoop_cons : testLoop cfg now m l (c :: cs) num = testLoop cfg now m l cs
    (num + (if calcContactExpires cfg now m c.expires ≠ 0 then 1 else 0) - (if Stored c l then 1 else 0)) := by
  simp only [testLoop]
  congr 1
  cases hget : getUcontact c.uri l with
  | none =>
    rw [if_neg (show ¬ Stored c l by simp [Stored, hget])]
    dsimp only
    split_ifs <;> omega
  | some i =>
    rw [if_pos (show Stored c l by simp [Stored, hget])]
    dsimp only
    split_ifs <;> omega

/-- Each contact of the message finds a valid contact in the record as it has become if and only if
its URI is in the record `l0`. -/
def Counted (cfg : Config) (now : Int) (mem : Memory) (m : Register) (l0 : List UContact) :
    Nat → List Contact → List UContact → Prop
  | _, [], _ => True
  | k, c :: cs, l => (Stored c l0 ↔ FindsValid now c l) ∧
    match updateOne cfg now mem m k c l with
    | .ok l' => Counted cfg now mem m l0 (k + 1) cs l'
    | .error _ => True

/-- What is counted up to each contact of the message is the number of valid contacts after it. -/
def CountsRight (cfg : Config) (now : Int) (mem : Memory) (m : Register) (l0 : List UContact) (k : Nat)
    (cs : List Contact) (l : List UContact) : Prop :=
  ∀ before after l', cs = before ++ after → updateLoop cfg now mem m k before l = .ok l' →
    testLoop cfg now m l0 before (numValid now l) = numValid now l'

theorem updateLoop_cons : updateLoop cfg now mem m k (c :: cs) l = .ok l' ↔
    ∃ l₁, updateOne cfg now mem m k c l = .ok l₁ ∧ updateLoop cfg now mem m (k + 1) cs l₁ = .ok l' := by
  simp only [updateLoop]
  cases updateOne cfg now mem m k c l <;> simp [Except.bind]

/-- The numbers are right if and only if the contacts find what the test supposes. -/
theorem countsRight_iff (hnow : 0 ≤ now) (hlast : Lasting cfg now m cs)
    (hok : ∃ l', updateLoop cfg now mem m k cs l = .ok l') {l0} :
    CountsRight cfg now mem m l0 k cs l ↔ Counted cfg now mem m l0 k cs l := by
  induction cs generalizing k l with
  | nil =>
    refine iff_of_true (fun before after l' heq h => ?_) trivial
    obtain ⟨rfl, -⟩ := nil_eq_append_iff.1 heq
    cases h
    rfl
  | cons c cs ih =>
    obtain ⟨l', hl'⟩ := hok
    obtain ⟨l₁, hone, hrest⟩ := updateLoop_cons.1 hl'
    have hnum := updateOne_numValid hnow (fun d hd => hlast d (by simp_all)) hone
    have ih := ih (fun d hd => hlast d (mem_cons_of_mem _ hd)) ⟨l', hrest⟩
    have hcounted : Counted cfg now mem m l0 k (c :: cs) l ↔
        (Stored c l0 ↔ FindsValid now c l) ∧ Counted cfg now mem m l0 (k + 1) cs l₁ := by
      rw [Counted, hone]
    rw [hcounted, ← ih]
    -- what is counted for the first contact is right if and only if it finds what the test supposes
    have hfirst : (numValid now l : Int) + (if calcContactExpires cfg now m c.expires ≠ 0 then 1 else 0) -
        (if Stored c l0 then 1 else 0) = numValid now l₁ ↔ (Stored c l0 ↔ FindsValid now c l) := by
      by_cases hst : Stored c l0 <;> by_cases hv : FindsValid now c l <;>
        simp only [hst, hv, reduceIte, iff_true, iff_false, iff_self, not_true_eq_false] at hnum ⊢ <;> omega
    constructor
    · intro h
      have hlen := h [c] cs l₁ rfl (updateLoop_cons.2 ⟨l₁, hone, rfl⟩)
      rw [testLoop_cons, testLoop] at hlen
      have hiff := hfirst.1 hlen
      refine ⟨hiff, fun before after l₂ heq h₂ => ?_⟩
      have hcons := h (c :: before) after l₂ (by rw [heq]; rfl) (updateLoop_cons.2 ⟨l₁, hone, h₂⟩)
      rwa [testLoop_cons, hfirst.2 hiff] at hcons
    · rintro ⟨hiff, h⟩ before after l₂ heq h₂
      cases before with
      | nil =>
        cases h₂
        rfl
      | cons d before =>
        obtain ⟨rfl, htail⟩ := List.cons.inj heq
        obtain ⟨l₃, hone', h₂⟩ := updateLoop_cons.1 h₂
        rw [hone] at hone'
        cases hone'
        rw [testLoop_cons, hfirst.2 hiff]
        exact h before after l₂ htail h₂

/-! ## The limit -/

/-- The same parameters without a limit. -/
def Config.unlimited (cfg : Config) : Config := { cfg with maxContacts := 0 }

section Insert

/-- What a step of `insert` can do. -/
theorem insertLoop_cons (h : insertLoop cfg now mem m k num (c :: cs) l = .ok l') :
    calcContactExpires cfg now m c.expires = 0 ∧ insertLoop cfg now mem m (k + 1) num cs l = .ok l' ∨
      calcContactExpires cfg now m c.expires ≠ 0 ∧ ¬(cfg.maxContacts ≠ 0 ∧ cfg.maxContacts ≤ num) ∧
        ¬(num = 0 ∧ !mem.record) ∧ mem.insert k = true ∧
        ∃ a, contactArgs m c (calcContactExpires cfg now m c.expires) (-3, .invQ) (-4, .invCseq) (-4, .fine) = .ok a ∧
          insertLoop cfg now mem m (k + 1) (num + 1) cs (memInsertUcontact cfg.descTimeOrder a l) = .ok l' := by
  simp only [insertLoop] at h
  by_cases he : calcContactExpires cfg now m c.expires = 0
  · rw [if_pos he] at h
    exact .inl ⟨he, h⟩
  · rw [if_neg he] at h
    by_cases hmax : cfg.maxContacts ≠ 0 ∧ cfg.maxContacts ≤ num
    · rw [if_pos hmax] at h
      cases h
    · rw [if_neg hmax] at h
      by_cases hrec : num = 0 ∧ !mem.record
      · rw [if_pos hrec] at h
        cases h
      · rw [if_neg hrec] at h
        cases hargs : contactArgs m c (calcContactExpires cfg now m c.expires) (-3, .invQ) (-4,
          .invCseq) (-4, .fine) with
        | error x => simp [hargs] at h
        | ok a =>
          simp only [hargs] at h
          split_ifs at h with hins
          exact .inr ⟨he, hmax, hrec, hins, a, rfl, h⟩

/-- A new record keeps the limit. -/
theorem insertLoop_le (hlast : Lasting cfg now m cs) (hmax : 0 < cfg.maxContacts)
    (hnum : num = numValid now l) (hle : num ≤ cfg.maxContacts) (h : insertLoop cfg now mem m k num cs l = .ok l') :
    (numValid now l' : Int) ≤ cfg.maxContacts := by
  induction cs generalizing k num l with
  | nil =>
    cases h
    omega
  | cons c cs ih =>
    have hrest : Lasting cfg now m cs := fun d hd => hlast d (mem_cons_of_mem _ hd)
    rcases insertLoop_cons h with ⟨_, h⟩ | ⟨he, hlt, _, _, a, hargs, h⟩
    · exact ih hrest hnum hle h
    · have hone := numValid_insert (hlast c mem_cons_self he) hargs cfg.descTimeOrder l
      exact ih hrest (by rw [hone]; omega) (by omega) h

theorem insertLoop_mono (hlast : Lasting cfg now m cs)
    (h : insertLoop cfg now mem m k num cs l = .ok l') : numValid now l ≤ numValid now l' := by
  induction cs generalizing k num l with
  | nil =>
    cases h
    exact Nat.le_refl _
  | cons c cs ih =>
    have hrest : Lasting cfg now m cs := fun d hd => hlast d (mem_cons_of_mem _ hd)
    rcases insertLoop_cons h with ⟨_, h⟩ | ⟨he, _, _, _, a, hargs, h⟩
    · exact ih hrest h
    · have hone := numValid_insert (hlast c mem_cons_self he) hargs cfg.descTimeOrder l
      have hmono := ih hrest h
      omega

/-- A new record that would keep the limit is not refused for it. -/
theorem insertLoop_not_refused (hlast : Lasting cfg now m cs)
    (hnum : num = numValid now l) (h : insertLoop cfg.unlimited now mem m k num cs l = .ok l')
    (hle : (numValid now l' : Int) ≤ cfg.maxContacts) :
    insertLoop cfg now mem m k num cs l = .ok l' := by
  induction cs generalizing k num l with
  | nil => exact h
  | cons c cs ih =>
    have hrest : Lasting cfg now m cs := fun d hd => hlast d (mem_cons_of_mem _ hd)
    have hexp : calcContactExpires cfg.unlimited now m c.expires = calcContactExpires cfg now m c.expires := rfl
    rcases insertLoop_cons h with ⟨he, h⟩ | ⟨he, _, hrec, hins, a, hargs, h⟩
    · simp only [insertLoop, if_pos (hexp ▸ he)]
      exact ih hrest hnum h
    · have hone := numValid_insert (hlast c mem_cons_self he) hargs cfg.unlimited.descTimeOrder l
      have hmono := insertLoop_mono (show Lasting cfg.unlimited now m cs from hrest) h
      have hlt : ¬(cfg.maxContacts ≠ 0 ∧ cfg.maxContacts ≤ num) := by omega
      rw [hexp] at he hargs
      simp only [insertLoop, if_neg he, if_neg hlt, if_neg hrec, hargs, if_pos hins]
      exact ih hrest (by rw [hnum]; exact_mod_cast hone.symm) h

end Insert

theorem updateLoop_unlimited (now : Int) (mem) (k : Nat) (l) :
    updateLoop cfg.unlimited now mem m k cs l = updateLoop cfg now mem m k cs l := by
  induction cs generalizing k l with
  | nil => rfl
  | cons c cs ih =>
    simp only [updateLoop]
    have hone : updateOne cfg.unlimited now mem m k c l = updateOne cfg now mem m k c l := rfl
    rw [hone]
    congr 1
    exact funext fun l => ih (k + 1) l

/-- The limit is kept by a REGISTER that is accepted, and one that would keep it is not refused for it. -/
structure KeepsLimit (cfg : Config) (now : Int) (mem : Memory) (m : Register) (r : Option (List UContact)) : Prop where
  kept : (contacts cfg now mem m r).code = 0 →
    (numValid now (contacts cfg now mem m r).contacts : Int) ≤ cfg.maxContacts
  not_refused : (contacts cfg.unlimited now mem m r).code = 0 →
    (numValid now (contacts cfg.unlimited now mem m r).contacts : Int) ≤ cfg.maxContacts →
    (contacts cfg now mem m r).rerrno ≠ .tooMany

section Limit

/-- An update that is accepted passed the test. -/
theorem update_ok (hmax : 0 < cfg.maxContacts) : update cfg now mem m l = .ok l' ↔
      testLoop cfg now m l m.contacts (numValid now l) ≤ cfg.maxContacts ∧
        updateLoop cfg now mem m 0 m.contacts l = .ok l' := by
  unfold update testMaxContacts
  by_cases htest : testLoop cfg now m l m.contacts (numValid now l) ≤ cfg.maxContacts
  · rw [if_neg (by simp [Int.not_lt.2 htest])]
    simp [htest]
  · have hlt := Int.not_le.1 htest
    have hne : cfg.maxContacts ≠ 0 := by omega
    rw [if_pos ⟨hne, by simpa using hlt⟩]
    simp [htest]

theorem keepsLimit_record (hmax : 0 < cfg.maxContacts) (ht : ∀ l', updateLoop cfg now mem m 0 m.contacts l = .ok l' →
    testLoop cfg now m l m.contacts (numValid now l) = numValid now l') : KeepsLimit cfg now mem m (some l) where
  kept h := by
    unfold contacts at h ⊢
    cases hup : update cfg now mem m l with
    | error x => simp [hup] at h
    | ok l' =>
      obtain ⟨hle, hloop⟩ := (update_ok hmax).1 hup
      rw [ht l' hloop] at hle
      simp only [hup]
      exact hle
  not_refused h hle := by
    have hun : update cfg.unlimited now mem m l = updateLoop cfg now mem m 0 m.contacts l := by
      rw [update, if_neg (by simp [Config.unlimited]), updateLoop_unlimited]
    unfold contacts at h hle ⊢
    simp only [hun] at h hle
    cases hloop : updateLoop cfg now mem m 0 m.contacts l with
    | error x => simp [hloop] at h
    | ok l' =>
      simp only [hloop] at hle
      have hup := (update_ok hmax).2 ⟨ht l' hloop ▸ hle, hloop⟩
      simp [hup]

theorem keepsLimit_new (hlast : Lasting cfg now m m.contacts) (hmax : 0 < cfg.maxContacts) :
    KeepsLimit cfg now mem m none where
  kept h := by
    unfold contacts at h ⊢
    cases hins : insertLoop cfg now mem m 0 0 m.contacts [] with
    | error x => simp [hins] at h
    | ok l' =>
      simp only
      exact insertLoop_le hlast hmax (by simp [numValid]) (Int.le_of_lt hmax) hins
  not_refused h hle := by
    unfold contacts at h hle ⊢
    cases hins : insertLoop cfg.unlimited now mem m 0 0 m.contacts [] with
    | error x => simp [hins] at h
    | ok l' =>
      simp only [hins] at hle
      have hok := insertLoop_not_refused hlast (by simp [numValid]) hins hle
      simp [hok]

end Limit

/-- A stored contact, valid until `expires`. -/
def aContact (uri inst : Str) (expires : Int) : UContact where
  aor := []
  c := uri
  received := none
  expires := expires
  q := 0
  callid := []
  cseq := 0
  state := .new
  flags := 0
  userAgent := []
  inst := some inst
  serverId := 0

/-- A REGISTER with one contact. -/
def aRegister (uri inst : Str) : Register where
  contacts := [{ uri := uri, inst := some inst, expires := some (some 60), q := some 0, received := none }]
  expires := none
  aor := []
  callid := []
  cseq := some 1
  ua := []
  sid := 0
  nat := false
  isRequest := true
  rcvUri := none
  memOnly := false

/-- The contacts are listed once more. -/
def twice (m : Register) : Register := { m with contacts := m.contacts ++ m.contacts }

def aConfig : Config :=
  { defaultExpires := 3600
    minExpires := 60
    maxExpires := 0
    maxContacts := 1
    descTimeOrder := false
    writeBack := true }

def plenty : Memory := ⟨true, fun _ => true, fun _ _ => true⟩

/-- The limit is kept if the test counts right, and it counts right for every contact of a message
that is saved if and only if each of them finds a valid contact just when its URI was stored. -/
theorem keepsLimit {cfg : Config} {now : Int} {mem : Memory} {m : Register}
    (hmax : 0 < cfg.maxContacts) (hnow : 0 ≤ now)
    (hlast : Lasting cfg now m m.contacts) : KeepsLimit cfg now mem m none ∧
      ∀ l, (Counted cfg now mem m l 0 m.contacts l → KeepsLimit cfg now mem m (some l)) ∧
        ∀ l', updateLoop cfg now mem m 0 m.contacts l = .ok l' →
          (CountsRight cfg now mem m l 0 m.contacts l ↔ Counted cfg now mem m l 0 m.contacts l) := by
  refine ⟨keepsLimit_new hlast hmax, fun l => ⟨fun h => keepsLimit_record hmax fun l' hl' => ?_, fun l' hl' => ?_⟩⟩
  · exact (countsRight_iff hnow hlast ⟨l', hl'⟩).2 h m.contacts [] l' (append_nil _).symm hl'
  · exact countsRight_iff hnow hlast ⟨l', hl'⟩

/-- A contact that is stored and valid, twice in one message. -/
theorem keepsLimit_again :
    KeepsLimit aConfig 1000 plenty (twice (aRegister [1] [7])) (some [aContact [1] [7] 2000]) := by
  have hlast : Lasting aConfig 1000 (twice (aRegister [1] [7])) (twice (aRegister [1] [7])).contacts := by
    intro c hc _
    obtain rfl | hc := mem_cons.1 hc
    · decide
    · obtain rfl := mem_singleton.1 hc
      decide
  refine ((keepsLimit (by decide) (by decide) hlast).2 _).1 ⟨by decide, ?_⟩
  exact ⟨by decide, trivial⟩

/-- A contact that has expired is valid again and one too many; and a contact that would take the
place of another one is refused. -/
theorem limit_missed :
    (numValid 1000 [aContact [1] [7] 900, aContact [2] [8] 2000] = 1 ∧
      (contacts aConfig 1000 plenty (aRegister [1] [7]) (some [aContact [1] [7] 900,
        aContact [2] [8] 2000])).code = 0 ∧
      numValid 1000 (contacts aConfig 1000 plenty (aRegister [1] [7])
        (some [aContact [1] [7] 900, aContact [2] [8] 2000])).contacts = 2) ∧
    (numValid 1000 (contacts aConfig.unlimited 1000 plenty (aRegister [3] [7])
      (some [aContact [1] [7] 2000])).contacts = 1 ∧
      (contacts aConfig 1000 plenty (aRegister [3] [7]) (some [aContact [1] [7] 2000])).rerrno = .tooMany) := by
  decide +kernel

end SipRouter.Registrar
