import Mathlib.Data.List.Perm.Basic
import SipRouter.Usrloc.Contact

/-!
# The location table follows the memory

The contacts in memory are a cache of the location table. A contact that is in state `sync`, not
for memory only and not marked as deleted has its row, and every row is the one of a contact that
the timer will write or delete (`Synced`). A flush makes all contacts `sync`, so the table is what
the memory says (`write_back_converges`).

Runs that avoid what breaks this are `UlReach`: a database call that fails, for the state is changed
before the call and stays so; an update that finds a stored contact by its instance and changes its
URI, for the row with the old URI is forgotten; one that makes a stored contact one for memory only;
one that takes the URI of another contact, or runs out of memory with the URI written and no mark
left; and a URI that does not fit its column of 255 characters.
-/

namespace SipRouter.Usrloc

open Lib List Bool

/-- A contact with its user. -/
structure Entry where
  uid : Str
  contact : UContact

/-- What its row is found by. -/
def Entry.key (e : Entry) : Str × Str := (e.uid, e.contact.c)

/-- The timer will write or delete the row of the contact. -/
def UContact.Stored (c : UContact) : Prop := c.state ≠ .new ∧ c.memOnly = false

instance (c : UContact) : Decidable c.Stored := by
  unfold UContact.Stored
  infer_instance

/-- `delete_ucontact` has left the contact to the timer. -/
def UContact.Deleted (c : UContact) : Prop := c.expires = 0 ∧ c.flags &&& flPermanent = 0

/-- The row is in the table as the contact says. -/
structure Entry.Clean (e : Entry) (r : Row) : Prop where
  sync : e.contact.state = .sync
  kept : e.contact.memOnly = false
  live : ¬ e.contact.Deleted
  row : r = e.contact.row e.uid

/-- The contact after it was written. -/
def Entry.synced (e : Entry) : Entry := { e with contact := { e.contact with state := .sync } }

/-- Two contacts that are not for memory only have different rows. -/
def Entry.Apart (e e' : Entry) : Prop := e.contact.memOnly = false → e'.contact.memOnly = false → e.key ≠ e'.key

/-- The contacts and the table. -/
structure Synced (es : List Entry) (rows : List Row) : Prop where
  backed : Keyed.Backed Row.key rows (fun r => ∃ e ∈ es, e.Clean r)
    (fun k => ∃ e ∈ es, e.contact.Stored ∧ e.key = k)
  apart : es.Pairwise Entry.Apart
  fits : ∀ e ∈ es, e.contact.memOnly = false → e.contact.c.length ≤ 255

section Synced

variable {es es' : List Entry} {rows : List Row} {e e' : Entry}

theorem Entry.Apart.symm (h : e.Apart e') : e'.Apart e := fun hm hm' heq => h hm' hm heq.symm

theorem row_key (h : e.contact.c.length ≤ 255) : (e.contact.row e.uid).key = e.key := by
  simp only [Row.key, UContact.row, Entry.key, take_of_length_le h]

/-- The order of the contacts does not matter. -/
theorem Synced.perm (h : Synced es rows) (hp : es.Perm es') : Synced es' rows where
  backed := h.backed.mono (fun _ ⟨e, he, hc⟩ => ⟨e, hp.mem_iff.2 he, hc⟩) fun _ ⟨e, he, hs⟩ => ⟨e, hp.mem_iff.1 he, hs⟩
  apart := h.apart.perm hp .symm
  fits e he := h.fits e (hp.mem_iff.2 he)

theorem Synced.empty : Synced [] [] where
  backed := Keyed.Backed.empty.mono (fun _ ⟨_, he, _⟩ => nomatch he) fun _ h => h
  apart := List.Pairwise.nil
  fits _ h := nomatch h

/-- A new contact has no row yet. -/
theorem Synced.add (h : Synced es rows) (hnew : e.contact.state = .new) (hapart : ∀ e' ∈ es, e.Apart e')
    (hfits : e.contact.memOnly = false → e.contact.c.length ≤ 255) : Synced (e :: es) rows where
  backed := by
    apply h.backed.mono
    · rintro r ⟨e', he', hc⟩
      rcases mem_cons.1 he' with rfl | he'
      · have hsync := hc.sync
        rw [hnew] at hsync
        cases hsync
      · exact ⟨e', he', hc⟩
    · rintro k ⟨e', he', hs⟩
      exact ⟨e', mem_cons_of_mem _ he', hs⟩
  apart := pairwise_cons.2 ⟨hapart, h.apart⟩
  fits e' he' := by
    rcases mem_cons.1 he' with rfl | he'
    · exact hfits
    · exact h.fits e' he'

variable (h : Synced (e :: es) rows)

include h

/-- A contact without a row may be forgotten. -/
theorem Synced.forget (hrow : ¬ e.contact.Stored) : Synced es rows where
  backed := by
    apply h.backed.mono
    · rintro r ⟨e', he', hc⟩
      exact ⟨e', mem_cons_of_mem _ he', hc⟩
    · rintro k ⟨e', he', hs⟩
      rcases mem_cons.1 he' with rfl | he'
      · exact absurd hs.1 hrow
      · exact ⟨e', he', hs⟩
  apart := (pairwise_cons.1 h.apart).2
  fits e' he' := h.fits e' (mem_cons_of_mem _ he')

/-- A contact changes, and is not clean any more. -/
theorem Synced.change (hclean : ∀ r, ¬ e'.Clean r)
    (hstored : e.contact.Stored → e'.contact.Stored ∧ e'.key = e.key)
    (hapart : ∀ o ∈ es, e'.Apart o)
    (hfits : e'.contact.memOnly = false → e'.contact.c.length ≤ 255) : Synced (e' :: es) rows where
  backed := by
    apply h.backed.mono
    · rintro r ⟨o, ho, hc⟩
      rcases mem_cons.1 ho with rfl | ho
      · exact absurd hc (hclean r)
      · exact ⟨o, mem_cons_of_mem _ ho, hc⟩
    · rintro k ⟨o, ho, hs, hk⟩
      rcases mem_cons.1 ho with rfl | ho
      · obtain ⟨hs', hk'⟩ := hstored hs
        exact ⟨e', mem_cons_self .., hs', hk'.trans hk⟩
      · exact ⟨o, mem_cons_of_mem _ ho, hs, hk⟩
  apart := pairwise_cons.2 ⟨hapart, (pairwise_cons.1 h.apart).2⟩
  fits o ho := by
    rcases mem_cons.1 ho with rfl | ho
    · exact hfits
    · exact h.fits o (mem_cons_of_mem _ ho)

section

variable (hkept : e.contact.memOnly = false)

include hkept

/-- Another contact that has a row has another row. -/
theorem Synced.key_ne {o} (ho : o ∈ es) (hs : o.contact.memOnly = false) : o.key ≠ e.key :=
  fun heq => (pairwise_cons.1 h.apart).1 o ho hkept hs heq.symm

theorem Synced.store : Synced (e.synced :: es) (Keyed.put Row.key (e.contact.row e.uid) rows) where
  backed := by
    have hkey := row_key (h.fits e (mem_cons_self ..) hkept)
    apply (h.backed.put (e.contact.row e.uid)).mono
    · rintro r ⟨o, ho, hc⟩
      rcases mem_cons.1 ho with rfl | ho
      · exact .inl hc.row
      · refine .inr ⟨⟨o, mem_cons_of_mem _ ho, hc⟩, ?_⟩
        rw [hc.row, hkey, row_key (h.fits o (mem_cons_of_mem _ ho) hc.kept)]
        exact h.key_ne hkept ho hc.kept
    · rintro k hk
      have hself : ∃ o ∈ e.synced :: es, o.contact.Stored ∧ o.key = e.key := ⟨_, mem_cons_self .., ⟨nofun, hkept⟩, rfl⟩
      rcases hk with rfl | ⟨o, ho, hs, hk⟩
      · rw [hkey]
        exact hself
      · rcases mem_cons.1 ho with rfl | ho
        · exact hk ▸ hself
        · exact ⟨o, mem_cons_of_mem _ ho, hs, hk⟩
  apart := pairwise_cons.2 ⟨(pairwise_cons.1 h.apart).1, (pairwise_cons.1 h.apart).2⟩
  fits o ho := by
    rcases mem_cons.1 ho with rfl | ho
    · exact h.fits e (mem_cons_self ..)
    · exact h.fits o (mem_cons_of_mem _ ho)

/-- The contact is deleted, in the table and in memory. -/
theorem Synced.delete : Synced es (Keyed.del Row.key e.key rows) where
  backed := by
    apply (h.backed.del e.key).mono
    · rintro r ⟨o, ho, hc⟩
      refine ⟨⟨o, mem_cons_of_mem _ ho, hc⟩, ?_⟩
      rw [hc.row, row_key (h.fits o (mem_cons_of_mem _ ho) hc.kept)]
      exact h.key_ne hkept ho hc.kept
    · rintro k ⟨⟨o, ho, hs, hk⟩, hne⟩
      rcases mem_cons.1 ho with rfl | ho
      · exact absurd hk.symm hne
      · exact ⟨o, ho, hs, hk⟩
  apart := (pairwise_cons.1 h.apart).2
  fits o ho := h.fits o (mem_cons_of_mem _ ho)

end

end Synced

/-! ## The timer -/

section Timer

variable {E : UlEnv} {uid : Str} {c : UContact} {db : Db} {es : List Entry} {now : Nat}

theorem not_deleted_of_valid (h : c.valid now = true) : ¬ c.Deleted := by
  rintro ⟨hexp, hperm⟩
  simp only [UContact.valid, hexp, hperm, or_eq_true, decide_eq_true_eq] at h
  rcases h with h | h
  · omega
  · exact absurd h (by decide)

theorem dbExec_of_not_failed {cmd} (h : (dbExec E cmd db).failed = false) :
    (dbExec E cmd db).rows = cmd db.rows ∧ db.failed = false := by
  simp only [dbExec, or_eq_false_iff, not_eq_false'] at h
  exact ⟨by simp only [dbExec, h.2, if_true], h.1⟩

/-- A contact is stored by the timer. -/
theorem Synced.dbStore (h : Synced (⟨uid, c⟩ :: es) db.rows)
    (hok : (dbStoreUcontact E uid { c with state := .sync } db).failed = false) :
    Synced (Entry.synced ⟨uid, c⟩ :: es) (dbStoreUcontact E uid { c with state := .sync } db).rows := by
  unfold dbStoreUcontact at hok ⊢
  split_ifs at hok ⊢ with hmem
  · refine h.change (fun r hc => ?_) (fun hs => ?_) (pairwise_cons.1 h.apart).1
      (h.fits ⟨uid, c⟩ (mem_cons_self ..))
    · exact false_ne_true (hc.kept.symm.trans hmem)
    · exact absurd (hs.2.symm.trans hmem) false_ne_true
  · rw [(dbExec_of_not_failed hok).1]
    exact h.store (eq_false_iff.2 hmem)

/-- A contact that has expired is deleted by the timer. -/
theorem Synced.dbDelete (h : Synced (⟨uid, c⟩ :: es) db.rows) (hok : (dbDeleteUcontact E uid c db).failed = false) :
    Synced es (dbDeleteUcontact E uid c db).rows := by
  unfold dbDeleteUcontact at hok ⊢
  split_ifs at hok ⊢ with hmem
  · exact h.forget fun hs => absurd (hs.2.symm.trans hmem) false_ne_true
  · rw [(dbExec_of_not_failed hok).1]
    exact h.delete (eq_false_iff.2 hmem)

theorem dbStore_failed (h : (dbStoreUcontact E uid c db).failed = false) : db.failed = false := by
  unfold dbStoreUcontact at h
  split_ifs at h
  · exact h
  · exact (dbExec_of_not_failed h).2

theorem dbDelete_failed (h : (dbDeleteUcontact E uid c db).failed = false) : db.failed = false := by
  unfold dbDeleteUcontact at h
  split_ifs at h
  · exact h
  · exact (dbExec_of_not_failed h).2

/-- What `wb_timer` does with a contact: the database after it, and the contact if it stays. -/
def wbContact (E : UlEnv) (now : Nat) (uid : Str) (c : UContact) (db : Db) : Option UContact × Db :=
  if !c.valid now then
    (none, if stExpiredUcontact E.dbSkipDelete c then dbDeleteUcontact E uid c db else db)
  else
    match c.state with
    | .sync => (some c, db)
    | .new | .dirty =>
      (some { c with state := .sync }, dbStoreUcontact E uid { c with state := .sync } db)

theorem wbTimer_cons {E now l db} :
    wbTimer E now uid (c :: l) db = ((wbContact E now uid c db).1.toList ++
      (wbTimer E now uid l (wbContact E now uid c db).2).1,
        (wbTimer E now uid l (wbContact E now uid c db).2).2) := by
  simp only [wbTimer, wbContact, stFlushUcontact]
  split_ifs
  · rfl
  all_goals cases c.state <;> rfl

theorem wbContact_failed (h : (wbContact E now uid c db).2.failed = false) : db.failed = false := by
  unfold wbContact at h
  split_ifs at h
  · exact dbDelete_failed h
  · exact h
  · split at h
    · exact h
    all_goals exact dbStore_failed h

variable {l : List UContact}

theorem Synced.wbContact (hdel : E.dbSkipDelete = false) (h : Synced (⟨uid, c⟩ :: es) db.rows)
    (hok : (wbContact E now uid c db).2.failed = false) :
    Synced ((wbContact E now uid c db).1.toList.map (Entry.mk uid) ++ es) (wbContact E now uid c db).2.rows := by
  unfold Usrloc.wbContact at hok ⊢
  split_ifs at hok ⊢ with hvalid hexp
  · exact h.dbDelete hok
  · refine h.forget fun hs => hexp ?_
    unfold stExpiredUcontact
    cases hstate : c.state with
    | new => exact absurd hstate hs.1
    | sync | dirty => simp [hdel]
  · cases hstate : c.state with
    | sync => exact h
    | new | dirty =>
      rw [hstate] at hok
      exact h.dbStore hok

/-- A contact that stays is valid and written. -/
theorem wbContact_some {c'} (h : (wbContact E now uid c db).1 = some c') : c'.valid now = true ∧ c'.state = .sync := by
  unfold wbContact at h
  split_ifs at h with hvalid
  have hv : c.valid now = true := by simpa using hvalid
  cases hstate : c.state with
  | sync =>
    rw [hstate] at h
    cases h
    exact ⟨hv, hstate⟩
  | new | dirty =>
    rw [hstate] at h
    cases h
    exact ⟨hv, rfl⟩

theorem wbTimer_failed (h : (wbTimer E now uid l db).2.failed = false) : db.failed = false := by
  induction l generalizing db with
  | nil => exact h
  | cons c l ih =>
    rw [wbTimer_cons] at h
    exact wbContact_failed (ih h)

theorem Synced.wbTimer (hdel : E.dbSkipDelete = false) (h : Synced (l.map (Entry.mk uid) ++ es) db.rows)
    (hok : (wbTimer E now uid l db).2.failed = false) :
    Synced ((wbTimer E now uid l db).1.map (Entry.mk uid) ++ es) (wbTimer E now uid l db).2.rows := by
  induction l generalizing db es with
  | nil => exact h
  | cons c l ih =>
    rw [wbTimer_cons] at hok ⊢
    have hone := h.wbContact hdel (wbTimer_failed hok)
    -- the contact that is done waits behind the rest
    have hrest := ih (hone.perm (perm_append_comm_assoc ..)) hok
    rw [map_append, append_assoc]
    exact hrest.perm (perm_append_comm_assoc ..)

theorem wbTimer_mem (h : c ∈ (wbTimer E now uid l db).1) : c.valid now = true ∧ c.state = .sync := by
  induction l generalizing db with
  | nil => cases h
  | cons c' l ih =>
    rw [wbTimer_cons] at h
    rcases mem_append.1 h with h | h
    · exact wbContact_some (Option.mem_toList.1 h)
    · exact ih h

end Timer

/-! ## Records -/

/-- The contacts of records. -/
def entriesOf (rs : List URecord) : List Entry := rs.flatMap fun r => r.contacts.map (Entry.mk r.uid)

variable {rs : List URecord} {s : ULState} {e : Entry} {E : UlEnv}

theorem mem_entriesOf : e ∈ entriesOf rs ↔ ∃ r ∈ rs, e.uid = r.uid ∧ e.contact ∈ r.contacts := by
  simp only [entriesOf, mem_flatMap, mem_map]
  constructor
  · rintro ⟨r, hr, c, hc, rfl⟩
    exact ⟨r, hr, rfl, hc⟩
  · rintro ⟨r, hr, huid, hc⟩
    exact ⟨r, hr, e.contact, hc, by rw [← huid]⟩

theorem entriesOf_cons {r} : entriesOf (r :: rs) = r.contacts.map (Entry.mk r.uid) ++ entriesOf rs := rfl

section Records

variable {now : Nat} {db : Db} {es : List Entry} {uid : Str} {r : URecord} {f : List UContact → List UContact}

theorem timerRecords_failed (h : (timerRecords E now rs db).2.failed = false) : db.failed = false := by
  induction rs generalizing db with
  | nil => exact h
  | cons r rs ih =>
    simp only [timerRecords] at h
    split_ifs at h
    all_goals exact wbTimer_failed (ih h)

/-- A record that is empty has no contacts to lose. -/
theorem entriesOf_timerRecords_cons (r rs) :
    let first := wbTimer E now r.uid r.contacts db
    entriesOf (timerRecords E now (r :: rs) db).1 = first.1.map (.mk r.uid) ++
      entriesOf (timerRecords E now rs first.2).1 ∧
    (timerRecords E now (r :: rs) db).2 = (timerRecords E now rs first.2).2 := by
  intro first
  simp only [timerRecords]
  split_ifs with hempty
  · exact ⟨by simp [first, hempty], rfl⟩
  · exact ⟨rfl, rfl⟩

theorem Synced.timerRecords (hdel : E.dbSkipDelete = false)
    (h : Synced (entriesOf rs ++ es) db.rows) (hok : (timerRecords E now rs db).2.failed = false) :
    Synced (entriesOf (timerRecords E now rs db).1 ++ es) (timerRecords E now rs db).2.rows := by
  induction rs generalizing db es with
  | nil => exact h
  | cons r rs ih =>
    obtain ⟨hentries, hdb⟩ := @entriesOf_timerRecords_cons E now db r rs
    rw [hdb] at hok
    rw [hentries, hdb]
    rw [entriesOf_cons, append_assoc] at h
    have hone := h.wbTimer hdel (timerRecords_failed hok)
    have hrest := ih (hone.perm (perm_append_comm_assoc ..)) hok
    rw [append_assoc]
    exact hrest.perm (perm_append_comm_assoc ..)

theorem timerRecords_mem (h : e ∈ entriesOf (Usrloc.timerRecords E now rs db).1) :
    e.contact.valid now = true ∧ e.contact.state = .sync := by
  induction rs generalizing db with
  | nil => cases h
  | cons r rs ih =>
    rw [(@entriesOf_timerRecords_cons E now db r rs).1] at h
    rcases mem_append.1 h with h | h
    · obtain ⟨c, hc, rfl⟩ := mem_map.1 h
      exact wbTimer_mem hc
    · exact ih h

/-- The users of the records that stay are among those before. -/
theorem timerRecords_uids : ((Usrloc.timerRecords E now rs db).1.map (·.uid)).Sublist (rs.map (·.uid)) := by
  induction rs generalizing db with
  | nil => exact List.Sublist.refl _
  | cons r rs ih =>
    simp only [Usrloc.timerRecords]
    split_ifs
    · exact ih.cons _
    · exact ih.cons_cons _

/-! ## One record -/

theorem change_of_ne (h : r.uid ≠ uid) : r.change uid f = r := by
  rw [URecord.change, if_neg h]

theorem map_change_of_ne (h : ∀ r ∈ rs, r.uid ≠ uid) : rs.map (·.change uid f) = rs := by
  rw [map_congr_left fun r hr => change_of_ne (h r hr), map_id']

/-- A change to the contacts of one record leaves those of the other users alone. -/
theorem entriesOf_change (hnodup : (rs.map (·.uid)).Nodup) (hr : r ∈ rs) : ∃ rest :
    List Entry, (∀ e ∈ rest, e.uid ≠ r.uid) ∧
      ((entriesOf rs).Perm (r.contacts.map (Entry.mk r.uid) ++ rest)) ∧
      ∀ f, (entriesOf (rs.map (·.change r.uid f))).Perm ((f r.contacts).map (Entry.mk r.uid) ++ rest) := by
  obtain ⟨front, back, rfl⟩ := append_of_mem hr
  rw [map_append, map_cons, nodup_append, nodup_cons] at hnodup
  obtain ⟨-, ⟨hback, -⟩, hfront⟩ := hnodup
  have hb : ∀ r' ∈ back, r'.uid ≠ r.uid := fun r' hr' heq =>
    hback (heq ▸ mem_map_of_mem hr')
  have hf : ∀ r' ∈ front, r'.uid ≠ r.uid := fun r' hr' heq =>
    hfront _ (mem_map_of_mem hr') _ (mem_cons_self ..) heq
  have hsplit : ∀ r', entriesOf (front ++ r' :: back) = entriesOf front ++
      (r'.contacts.map (.mk r'.uid) ++ entriesOf back) := by
    intro r'
    rw [entriesOf, flatMap_append]
    rfl
  refine ⟨entriesOf front ++ entriesOf back, ?_, ?_, ?_⟩
  · intro e he
    rcases mem_append.1 he with he | he
    · obtain ⟨r', hr', huid, -⟩ := mem_entriesOf.1 he
      exact huid ▸ hf r' hr'
    · obtain ⟨r', hr', huid, -⟩ := mem_entriesOf.1 he
      exact huid ▸ hb r' hr'
  · rw [hsplit]
    exact perm_append_comm_assoc ..
  · intro f
    have hself : r.change r.uid f = ⟨r.uid, f r.contacts⟩ := by rw [URecord.change, if_pos rfl]
    rw [map_append, map_cons, map_change_of_ne hf, map_change_of_ne hb, hself, hsplit]
    exact perm_append_comm_assoc ..

/-- It is enough to look at the record that changes. -/
theorem Synced.changeRecord {rows} (h : Synced (entriesOf rs) rows) (hnodup : (rs.map (·.uid)).Nodup) {f}
    (hstep : ∀ r ∈ rs, r.uid = uid → ∀ rest : List Entry,
      (∀ e ∈ rest, e.uid ≠ uid) → Synced (r.contacts.map (Entry.mk uid) ++ rest) rows →
      Synced ((f r.contacts).map (Entry.mk uid) ++ rest) rows) : Synced (entriesOf
        (rs.map (·.change uid f))) rows := by
  by_cases huid : ∃ r ∈ rs, r.uid = uid
  · obtain ⟨r, hr, rfl⟩ := huid
    obtain ⟨rest, hrest, hbefore, hafter⟩ := entriesOf_change hnodup hr
    exact (hstep r hr rfl rest hrest (h.perm hbefore)).perm (hafter f).symm
  · have hne : ∀ r ∈ rs, r.uid ≠ uid := fun r hr heq => huid ⟨r, hr, heq⟩
    rw [map_change_of_ne hne]
    exact h

theorem nodup_change (h : (rs.map (·.uid)).Nodup) : ((rs.map (·.change uid f)).map (·.uid)).Nodup := by
  have hsame : (rs.map (·.change uid f)).map (·.uid) = rs.map (·.uid) := by
    rw [map_map]
    apply map_congr_left
    intro r _
    show (r.change uid f).uid = r.uid
    unfold URecord.change
    split_ifs <;> rfl
  rw [hsame]
  exact h

theorem entriesOf_filter {p} (h : ∀ r ∈ rs, p r = false → r.contacts = []) :
    entriesOf (rs.filter p) = entriesOf rs := by
  induction rs with
  | nil => rfl
  | cons r rs ih =>
    have hrs := ih fun r' hr' => h r' (mem_cons_of_mem _ hr')
    rw [filter_cons, entriesOf_cons, ← hrs]
    split_ifs with hp
    · rfl
    · rw [h r (mem_cons_self ..) (eq_false_iff.2 hp)]
      rfl

end Records

/-! ## The operations -/

section Operations

variable {uid u : Str} {l : List UContact} {c : UContact} {i : Nat} {rest : List Entry}
  {rows : List Row} {alloc : Nat → Bool} {inst : Option Str} {a : UArgs}

theorem perm_of_getElem? (h : l[i]? = some c) : l.Perm (c :: l.eraseIdx i) := by
  obtain ⟨hlt, rfl⟩ := List.getElem?_eq_some_iff.1 h
  exact (getElem_cons_eraseIdx_perm hlt).symm

/-- The contact at a place is in front of the others. -/
theorem Synced.front (h : Synced (l.map (Entry.mk uid) ++ rest) rows) (hi : l[i]? = some c) :
    Synced (⟨uid, c⟩ :: ((l.eraseIdx i).map (Entry.mk uid) ++ rest)) rows :=
  h.perm (((perm_of_getElem? hi).map _).append_right rest)

theorem Synced.set (hi : l[i]? = some c) {c'}
    (h : Synced (⟨uid, c'⟩ :: ((l.eraseIdx i).map (Entry.mk uid) ++ rest)) rows) :
    Synced ((l.set i c').map (Entry.mk uid) ++ rest) rows := by
  obtain ⟨hlt, -⟩ := List.getElem?_eq_some_iff.1 hi
  exact h.perm (((set_perm_cons_eraseIdx hlt c').map _).append_right rest).symm

theorem memInsertUcontact_perm (descTimeOrder : Bool) (a l) :
    (memInsertUcontact descTimeOrder a l).Perm (newUcontact a :: l) := by
  unfold memInsertUcontact
  split_ifs
  · exact List.Perm.refl _
  · refine perm_middle.trans ?_
    rw [takeWhile_append_dropWhile]

/-- A contact that is marked as deleted. -/
def UContact.mark (c : UContact) : UContact := { c with flags := c.flags &&& ~~~flPermanent, expires := 0 }

theorem memOnly_mark : c.mark.memOnly = c.memOnly := by
  have hmask : ~~~flPermanent &&& flMem = flMem := by decide
  simp only [UContact.memOnly, UContact.mark, BitVec.and_assoc, hmask]

theorem deleted_mark : c.mark.Deleted := by
  have hmask : ~~~flPermanent &&& flPermanent = 0 := by decide
  refine ⟨rfl, ?_⟩
  simp only [UContact.mark, BitVec.and_assoc, hmask]
  exact BitVec.and_zero

theorem stDeleteUcontact_of_ne (h : c.state ≠ .new) : stDeleteUcontact c = some c.mark := by
  unfold stDeleteUcontact
  split
  · next hnew => exact absurd hnew h
  · rfl
  · rfl

/-- `delete_ucontact` keeps the table in step. -/
theorem Synced.deleteUcontact (h : Synced (l.map (Entry.mk uid) ++ rest) rows) (i : Nat) :
    Synced ((deleteUcontact i l).map (Entry.mk uid) ++ rest) rows := by
  unfold Usrloc.deleteUcontact
  cases hi : l[i]? with
  | none => exact h
  | some c =>
    have hfront := h.front hi
    by_cases hstate : c.state = .new
    · simp only [stDeleteUcontact, hstate]
      exact hfront.forget fun hs => hs.1 hstate
    · simp only [stDeleteUcontact_of_ne hstate]
      refine .set hi (hfront.change ?_ ?_ ?_ ?_)
      · exact fun r hc => hc.live (deleted_mark)
      · exact fun hs => ⟨⟨hs.1, (memOnly_mark).trans hs.2⟩, rfl⟩
      · intro o ho hm
        exact (pairwise_cons.1 hfront.apart).1 o ho ((memOnly_mark).symm.trans hm)
      · intro hm
        exact hfront.fits ⟨uid, c⟩ (mem_cons_self ..) ((memOnly_mark).symm.trans hm)

/-- A contact that is saved finds no other with its URI. -/
theorem getUcontactByInstance_none (h : getUcontactByInstance u inst l = none) : ∀ p ∈ l, p.c ≠ u := by
  intro p hp heq
  unfold getUcontactByInstance at h
  cases inst with
  | none | some i =>
    have hnone := findIdx?_eq_none_iff.1 h p hp
    simp [heq] at hnone

theorem getUcontactByInstance_lt (h : getUcontactByInstance u inst l = some i) : i < l.length := by
  unfold getUcontactByInstance at h
  cases inst with
  | none | some _ => exact (findIdx?_eq_some_iff_findIdx_eq.1 h).1

/-- Which contacts may be saved: a URI fits its column; an update does not run out of memory, leaves the
URI of a stored contact and does not make it one for memory only, and takes no URI of another contact. -/
def SaveFine (alloc : Nat → Bool) (a : UArgs) (l : List UContact) : Prop :=
  match getUcontactByInstance a.c a.inst l with
  | none => (newUcontact a).memOnly = false → a.c.length ≤ 255
  | some i => ∀ c ∈ l[i]?,
    (updateUcontact alloc a c).2 = 0 ∧
    (c.Stored → (updateUcontact alloc a c).1.memOnly = false ∧ c.c = a.c) ∧
    ((updateUcontact alloc a c).1.memOnly = false →
      a.c.length ≤ 255 ∧ ∀ p ∈ l.eraseIdx i, p.memOnly = false → p.c ≠ a.c)

instance (alloc : Nat → Bool) (a : UArgs) (l : List UContact) : Decidable (SaveFine alloc a l) := by
  unfold SaveFine
  split <;> infer_instance

/-- An update that succeeds leaves a contact that waits for the timer. -/
theorem updateUcontact_ok (h : (updateUcontact alloc a c).2 = 0) :
    (updateUcontact alloc a c).1.c = a.c ∧ (updateUcontact alloc a c).1.state ≠ .sync ∧
      (c.state ≠ .new → (updateUcontact alloc a c).1.state ≠ .new) := by
  unfold updateUcontact at h ⊢
  cases hmem : memUpdateUcontact alloc a c with
  | error c' =>
    rw [hmem] at h
    exact absurd h (show ¬ (-1 : Int) = 0 by decide)
  | ok c' =>
    obtain ⟨hc, -, -, -, hstate⟩ := memUpdateUcontact_ok hmem
    rw [← hstate]
    show (stUpdateUcontact c').c = a.c ∧ (stUpdateUcontact c').state ≠ .sync ∧
        (c'.state ≠ .new → (stUpdateUcontact c').state ≠ .new)
    unfold stUpdateUcontact
    split
    · next hnew => exact ⟨hc, by simp [hnew], id⟩
    · exact ⟨hc, nofun, fun _ => nofun⟩
    · next hdirty => exact ⟨hc, by simp [hdirty], id⟩

/-- Saving a contact keeps the table in step. -/
theorem Synced.saveContact (h : Synced (l.map (Entry.mk uid) ++ rest) rows) (hrest : ∀ e ∈ rest, e.uid ≠ uid) (E)
    (hfine : SaveFine alloc a l) : Synced ((saveContact E alloc a l).map (Entry.mk uid) ++ rest) rows := by
  -- the rows of other users are apart from any of this one
  have hother : ∀ (c : UContact) (o : Entry), o ∈ rest → Entry.Apart ⟨uid, c⟩ o :=
    fun c o ho _ _ heq => hrest o ho (Prod.mk.inj heq).1.symm
  unfold Usrloc.saveContact
  unfold SaveFine at hfine
  cases hget : getUcontactByInstance a.c a.inst l with
  | none =>
    simp only [hget] at hfine ⊢
    have hperm := (((memInsertUcontact_perm E.descTimeOrder a l).map (.mk uid)).append_right rest).symm
    refine .perm (h.add (e := ⟨uid, newUcontact a⟩) rfl ?_ hfine) hperm
    intro o ho
    rcases mem_append.1 ho with ho | ho
    · obtain ⟨p, hp, rfl⟩ := mem_map.1 ho
      exact fun _ _ heq => getUcontactByInstance_none hget p hp (Prod.mk.inj heq).2.symm
    · exact hother _ o ho
  | some i =>
    have hlt := getUcontactByInstance_lt hget
    have hi := getElem?_eq_getElem hlt
    simp only [hget] at hfine ⊢
    rw [modify_eq_set_getElem?, hi]
    have hfront := h.front hi
    obtain ⟨hret, hstored, hkept⟩ := hfine l[i] hi
    obtain ⟨hc, hsync, hnew⟩ := updateUcontact_ok hret
    refine .set hi (hfront.change ?_ ?_ ?_ ?_)
    · exact fun r hclean => hsync hclean.sync
    · intro hs
      obtain ⟨hmem, huri⟩ := hstored hs
      exact ⟨⟨hnew hs.1, hmem⟩, Prod.ext rfl (hc.trans huri.symm)⟩
    · intro o ho
      rcases mem_append.1 ho with ho | ho
      · obtain ⟨p, hp, rfl⟩ := mem_map.1 ho
        intro hm hm' heq
        exact (hkept hm).2 p hp hm' ((Prod.mk.inj heq).2.symm.trans hc)
      · exact hother _ o ho
    · intro hm
      rw [hc]
      exact (hkept hm).1

end Operations

/-! ## Runs -/

/-- The condition on an operation: contacts are saved as above, and no database call of the timer fails. -/
def UlOp.Fine (E : UlEnv) (s : ULState) : UlOp → Prop
  | .save uid a alloc =>
    ∀ r ∈ getOrInsertUrecord uid s.records, r.uid = uid → SaveFine alloc a r.contacts
  | .timer now => ((UlOp.timer now).step E s).db.failed = false
  | .delete .. | .release _ => True

instance (E : UlEnv) (s : ULState) (op : UlOp) : Decidable (op.Fine E s) := by
  cases op <;> unfold UlOp.Fine <;> infer_instance

/-- The states that runs of fine operations reach from an empty store. -/
inductive UlReach (E : UlEnv) : ULState → Prop
  | init : UlReach E ULState.init
  | step {s : ULState} {op : UlOp} (h : UlReach E s) (hop : op.Fine E s) : UlReach E (op.step E s)

/-- The records and the table. -/
structure ULState.Ok (s : ULState) : Prop where
  uids : (s.records.map (·.uid)).Nodup
  synced : Synced (entriesOf s.records) s.db.rows

theorem ok_getOrInsertUrecord (h : s.Ok) (uid : Str) :
    ULState.Ok { s with records := getOrInsertUrecord uid s.records } := by
  unfold getOrInsertUrecord
  split_ifs with hany
  · exact h
  · have hne : ∀ r ∈ s.records, r.uid ≠ uid := by simpa using hany
    constructor
    · show (List.map URecord.uid (s.records ++ [⟨uid, []⟩])).Nodup
      rw [map_append, nodup_append]
      refine ⟨h.uids, by simp, ?_⟩
      rintro u hu u' hu' rfl
      obtain ⟨r, hr, rfl⟩ := mem_map.1 hu
      exact hne r hr (mem_singleton.1 hu')
    · have hsame : entriesOf (s.records ++ [⟨uid, []⟩]) = entriesOf s.records := by simp [entriesOf]
      show Synced (entriesOf (s.records ++ [⟨uid, []⟩])) s.db.rows
      rw [hsame]
      exact h.synced

theorem ULState.Ok.step (hdel : E.dbSkipDelete = false) (h : s.Ok) {op : UlOp} (hop : op.Fine E s) :
    (op.step E s).Ok := by
  cases op with
  | save uid a alloc =>
    have hget := ok_getOrInsertUrecord h uid
    constructor
    · exact nodup_change hget.uids
    · apply hget.synced.changeRecord hget.uids
      intro r hr huid rest hrest hsynced
      exact hsynced.saveContact hrest E (hop r hr huid)
  | delete uid u inst =>
    constructor
    · exact nodup_change h.uids
    · apply h.synced.changeRecord h.uids
      intro r _ _ rest _ hsynced
      cases hget : getUcontactByInstance u inst r.contacts with
      | none => exact hsynced
      | some i => exact hsynced.deleteUcontact i
  | release uid =>
    constructor
    · exact h.uids.sublist (filter_sublist.map _)
    · show Synced (entriesOf (List.filter _ s.records)) s.db.rows
      rw [entriesOf_filter]
      · exact h.synced
      · intro r _ hr
        simp only [not_eq_false', and_eq_true, decide_eq_true_eq] at hr
        exact hr.2
  | timer now =>
    constructor
    · exact h.uids.sublist timerRecords_uids
    · have hall : Synced (entriesOf s.records ++ []) s.db.rows := by
        rw [append_nil]
        exact h.synced
      have hdone := hall.timerRecords hdel hop
      rw [append_nil] at hdone
      exact hdone

theorem UlReach.ok (hdel : E.dbSkipDelete = false) (h : UlReach E s) : s.Ok := by
  induction h with
  | init => exact ⟨nodup_nil, .empty⟩
  | step _ hop ih => exact ih.step hdel hop

/-- A user for runs of their own. -/
def demoUid : Str := [97]

/-- A registration with a URI, valid until `expires`. -/
def demoArgs (u : UInt8) (expires : Int) : UArgs where
  aor := [97]
  c := [u]
  expires := expires
  q := 0
  callid := [1]
  cseq := 1
  flags := 0
  set := 0
  res := 0
  ua := []
  recv := none
  inst := some [105]
  sid := 0

def demoSave (u : UInt8) (expires : Int) : UlOp := .save demoUid (demoArgs u expires) fun _ => true

/-- A database whose call of number 0 fails if `first` is false. -/
def demoEnv (first : Bool) : UlEnv := ⟨fun n => first || n != 0, false, false⟩

/-- In every state that such a run reaches, a contact in state `sync` that is not for memory only and not
marked as deleted has its row; and after a flush in which no database call fails the table has the rows of
the contacts that are valid and not for memory only, and no others. -/
theorem write_back_converges (E : UlEnv) (hdel : E.dbSkipDelete = false) {s : ULState} (h : UlReach E s) :
    (∀ r ∈ s.records, ∀ c ∈ r.contacts, c.state = .sync → c.memOnly = false → ¬ c.Deleted →
      c.row r.uid ∈ s.db.rows) ∧
    ∀ now, ((UlOp.timer now).step E s).db.failed = false →
      ∀ row, row ∈ ((UlOp.timer now).step E s).db.rows ↔
        ∃ r ∈ ((UlOp.timer now).step E s).records, ∃ c ∈ r.contacts,
          c.valid now = true ∧ c.memOnly = false ∧ row = c.row r.uid := by
  constructor
  · intro r hr c hc hsync hmem hlive
    exact (h.ok hdel).synced.backed.clean_mem _
      ⟨⟨r.uid, c⟩, mem_entriesOf.2 ⟨r, hr, rfl, hc⟩, hsync, hmem, hlive, rfl⟩
  · intro now hok row
    have hsynced := ((h.ok hdel).step hdel (show (UlOp.timer now).Fine E s from hok)).synced
    have hdone : ∀ e ∈ entriesOf ((UlOp.timer now).step E s).records,
        e.contact.valid now = true ∧ e.contact.state = .sync := fun e he => timerRecords_mem he
    have hclean : ∀ e ∈ entriesOf ((UlOp.timer now).step E s).records, e.contact.memOnly = false →
        e.Clean (e.contact.row e.uid) := fun e he hmem =>
      ⟨(hdone e he).2, hmem, not_deleted_of_valid (hdone e he).1, rfl⟩
    rw [hsynced.backed.mem_iff]
    · constructor
      · rintro ⟨e, he, hc⟩
        obtain ⟨r, hr, huid, hmem⟩ := mem_entriesOf.1 he
        exact ⟨r, hr, e.contact, hmem, (hdone e he).1, hc.kept, huid ▸ hc.row⟩
      · rintro ⟨r, hr, c, hc, -, hmem, rfl⟩
        have he : Entry.mk r.uid c ∈ entriesOf ((UlOp.timer now).step E s).records :=
          mem_entriesOf.2 ⟨r, hr, rfl, hc⟩
        exact ⟨⟨r.uid, c⟩, he, hclean _ he hmem⟩
    · rintro k ⟨e, he, hs, rfl⟩
      exact ⟨_, ⟨e, he, hclean e he hs.2⟩, row_key (hsynced.fits e he hs.2)⟩

/-- A registration is flushed, refreshed and flushed again. -/
theorem write_back_converges_refreshed :
    let s := (demoSave 98 50).step (demoEnv true)
      ((UlOp.timer 10).step (demoEnv true) ((demoSave 98 20).step (demoEnv true) .init))
    UlReach (demoEnv true) s ∧
    ((newUcontact (demoArgs 98 50)).row demoUid ∈ ((UlOp.timer 20).step (demoEnv true) s).db.rows ↔
      ∃ r ∈ ((UlOp.timer 20).step (demoEnv true) s).records, ∃ c ∈ r.contacts,
        c.valid 20 = true ∧ c.memOnly = false ∧
          (newUcontact (demoArgs 98 50)).row demoUid = c.row r.uid) := by
  intro s
  have hreach : UlReach (demoEnv true) s :=
    .step (.step (.step .init (by decide)) (by decide)) (by decide)
  exact ⟨hreach, (write_back_converges (demoEnv true) rfl hreach).2 20 (by decide) _⟩

/-- A contact whose insert fails is `sync` without a row, and the next flush does not write it, though its
calls would succeed; a contact that changes its URI leaves its old row behind, though every call
succeeds; and a contact that is deleted is `sync` with a row that differs from it. -/
theorem failed_or_moved_contact_diverges :
    (let s := (UlOp.timer 10).step (demoEnv false) ((demoSave 98 50).step (demoEnv false) .init)
     let s' := (UlOp.timer 20).step (demoEnv false) s
     s.records.map (·.contacts.map (·.state)) = [[.sync]] ∧ s.db.rows = [] ∧
       s'.records = s.records ∧ s'.db = s.db) ∧
    (let s := (demoSave 99 50).step (demoEnv true)
       ((UlOp.timer 10).step (demoEnv true) ((demoSave 98 50).step (demoEnv true) .init))
     let s' := (UlOp.timer 20).step (demoEnv true) s
     s'.db.failed = false ∧ s'.records.map (·.contacts.map (·.c)) = [[[99]]] ∧
       s'.db.rows.map (·.contact) = [[99], [98]]) ∧
    (let s := (UlOp.delete demoUid [98] none).step (demoEnv true)
       ((UlOp.timer 10).step (demoEnv true) ((demoSave 98 50).step (demoEnv true) .init))
     s.records.map (·.contacts.map (·.state)) = [[.sync]] ∧
       ∀ r ∈ s.records, ∀ c ∈ r.contacts, c.row r.uid ∉ s.db.rows) := by
  decide

/-- In every state, flushed or not, each row is that of a stored contact in memory, which has no second one. -/
theorem rows_owned (E : UlEnv) (hdel : E.dbSkipDelete = false) {s : ULState} (h : UlReach E s) :
    (∀ row ∈ s.db.rows, ∃ e ∈ entriesOf s.records, e.contact.Stored ∧ e.key = row.key) ∧
      ∀ row ∈ s.db.rows, ∀ row' ∈ s.db.rows, row.key = row'.key → row = row' :=
  ⟨(h.ok hdel).synced.backed.owned_key, (h.ok hdel).synced.backed.single⟩

theorem rows_owned_flushed :
    let s := (UlOp.timer 10).step (demoEnv true) ((demoSave 98 20).step (demoEnv true) .init)
    (newUcontact (demoArgs 98 20)).row demoUid ∈ s.db.rows ∧ ∀ row ∈ s.db.rows,
      ∃ e ∈ entriesOf s.records, e.contact.Stored ∧ e.key = row.key :=
  ⟨by decide, (rows_owned (demoEnv true) rfl (.step (.step .init (by decide)) (by decide))).1⟩

end SipRouter.Usrloc
