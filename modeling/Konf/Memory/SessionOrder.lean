import Konf.Memory.Session

/-! # The order of session calls

A `get` answers as if the calls ran one after the other in the order of their last statements, unless it
looks for a row that the first statement of a `set` has removed. -/

namespace Konf.Memory
open Konf.Transition Konf.Linearization
set_option autoImplicit false

/-! ## One call after the other -/

abbrev Contents : Type := Slot → Option SessionRow

/-- The expired rows of a session are gone. -/
def Contents.expire (m : Contents) (session : String × String) (now : Time) : Contents :=
  fun k => if k.session = session then (m k).filter fun row => !row.expired now else m k

def Contents.clear (m : Contents) (session : String × String) : Contents :=
  fun k => if k.session = session then none else m k

/-- What was stored is still there, unless it has expired. -/
def InPlace (before after : Option SessionRow) (now : Time) : Prop :=
  after = before ∨ after = none ∧ ∃ row, before = some row ∧ row.expired now = true

def Ended.Within (c : Ended) (now : Time) : Prop := c.start ≤ now ∧ now ≤ c.finish

/-- What a call does and answers when it runs alone, at an instant between its start and its end. -/
def Explains (db : Surreal) (m : Contents) (c : Ended) (m' : Contents) : Prop :=
  match c.call with
  | .set key value sid param ttl =>
    let slot := slotOf (resolveNamespace param) sid key
    (c.reply = .ok (setReply key sid (resolveNamespace param) ttl) ∧ ∃ now row, c.Within now ∧
      db.row now value ttl = some row ∧ m' = Function.update m slot (some row)) ∨
    ((∃ e, c.reply = .error e) ∧ m' = m ∧ InPlace (m slot) (c.table.get slot) c.finish)
  | .get key sid param =>
    let ns := resolveNamespace param
    ∃ now, c.Within now ∧ m' = m.expire (ns, sid) now ∧
      c.reply = .ok (getReply key sid ns (((m' (slotOf ns sid key)).map SessionRow.value).getD .null))
  | .delete key sid param => m' = Function.update m (slotOf (resolveNamespace param) sid key) none
  | .list sid param => ∃ now, c.Within now ∧ m' = m.expire (resolveNamespace param, sid) now
  | .clear sid param => m' = m.clear (resolveNamespace param, sid)

/-! ## The condition -/

/-- A `get` does not select a key whose row a `set` has removed, nor does a `set` fail on one because
the expiry cannot be computed. -/
def StateCall.Undisturbed (db : Surreal) (taken : SessionTable) (begun : Bool) (now : Time) :
    StateCall → Prop
  | .set key value sid param ttl => begun = true → db.row now value ttl = none →
      taken.get (slotOf (resolveNamespace param) sid key) = none
  | .get key sid param => begun = true → taken.get (slotOf (resolveNamespace param) sid key) = none
  | .delete .. | .list .. | .clear .. => True

def Undisturbed (db : Surreal) (s : SessionState) : StateMove → Prop
  | .invoke _ _ => True
  | .advance i now => ∀ f ∈ s.inFlight[i]?, f.call.Undisturbed db s.taken f.begun now

instance (db : Surreal) (taken : SessionTable) (begun : Bool) (now : Time) :
    (call : StateCall) → Decidable (call.Undisturbed db taken begun now)
  | .set key value sid param ttl => inferInstanceAs (Decidable (begun = true →
      db.row now value ttl = none → taken.get (slotOf (resolveNamespace param) sid key) = none))
  | .get key sid param => inferInstanceAs (Decidable (begun = true →
      taken.get (slotOf (resolveNamespace param) sid key) = none))
  | .delete .. | .list .. | .clear .. => .isTrue trivial

instance (db : Surreal) (s : SessionState) : (a : StateMove) → Decidable (Undisturbed db s a)
  | .invoke _ _ => .isTrue trivial
  | .advance i now => inferInstanceAs
      (Decidable (∀ f ∈ s.inFlight[i]?, f.call.Undisturbed db s.taken f.begun now))

/-! ## Table and contents -/

/-- The row would not be pruned at `now`. -/
def SessionRow.alive (now : WithBot Time) (row : SessionRow) : Bool :=
  WithBot.recBotCoe true (fun t : Time => !row.expired t) now

theorem SessionRow.alive_coe (now : Time) (row : SessionRow) :
    row.alive (now : WithBot Time) = !row.expired now := rfl

theorem SessionRow.alive_bot (row : SessionRow) : row.alive ⊥ = true := rfl

theorem SessionRow.expired_mono {a b : Time} (h : a ≤ b) {row : SessionRow}
    (hrow : row.expired a = true) : row.expired b = true := by
  unfold expired at hrow ⊢
  rw [Option.any_eq_true] at hrow ⊢
  obtain ⟨e, he, hlt⟩ := hrow
  exact ⟨e, he, decide_eq_true ((of_decide_eq_true hlt).trans_le h)⟩

theorem SessionRow.alive_of_le {a b : WithBot Time} (h : a ≤ b) {row : SessionRow}
    (hrow : row.alive b = true) : row.alive a = true := by
  induction a with
  | bot => rfl
  | coe a =>
    induction b with
    | bot => exact absurd (WithBot.le_bot_iff.mp h) WithBot.coe_ne_bot
    | coe b =>
      rw [alive_coe, Bool.not_eq_true'] at hrow ⊢
      by_contra hexpired
      have hlater := expired_mono (WithBot.coe_le_coe.mp h) (Bool.not_eq_false _ ▸ hexpired)
      rw [hlater] at hrow
      cases hrow

/-- Pruning again at a later instant is pruning at that instant. -/
theorem filter_alive {a b : WithBot Time} (h : a ≤ b) (r : Option SessionRow) :
    (r.filter (SessionRow.alive a)).filter (SessionRow.alive b) = r.filter (SessionRow.alive b) := by
  rw [Option.filter_filter]
  congr 1
  funext row
  rw [Bool.eq_iff_iff, Bool.and_eq_true]
  exact ⟨fun hrow => hrow.2, fun hrow => ⟨SessionRow.alive_of_le h hrow, hrow⟩⟩

theorem filter_pass (r : Option SessionRow) : r.filter (fun _ => true) = r := by cases r <;> rfl

/-- The stored rows and the ones taken away are the contents, less what was pruned in each session. -/
structure Fits (t taken : SessionTable) (m : Contents) (last : String × String → WithBot Time) :
    Prop where
  rows : ∀ k, (t.get k).or (taken.get k) = (m k).filter (SessionRow.alive (last k.session))
  apart : ∀ k, taken.get k = none ∨ t.get k = none ∧ k.key ≠ ""

/-- A row that is created has not expired. -/
theorem Surreal.row_alive {db : Surreal} {now : Time} {value : Json} {ttl : Option ℤ}
    {row : SessionRow} (h : db.row now value ttl = some row) : row.alive (now : WithBot Time) = true := by
  cases ttl with
  | none =>
    cases h
    rfl
  | some seconds =>
    simp only [Surreal.row] at h
    split_ifs at h with hpos
    · obtain ⟨e, he, rfl⟩ := Option.map_eq_some_iff.mp h
      rw [SessionRow.alive_coe]
      simpa [SessionRow.expired] using db.later now seconds e hpos he
    · cases h
      rfl

namespace Fits

variable {t taken : SessionTable} {m : Contents} {last : String × String → WithBot Time}

theorem get_of_not_taken (h : Fits t taken m last) {k : Slot} (hk : taken.get k = none) :
    t.get k = (m k).filter (SessionRow.alive (last k.session)) := by
  rw [← h.rows k, hk, Option.or_none]

theorem inPlace (h : Fits t taken m last) {k : Slot} (hk : taken.get k = none) {now : Time}
    (hlast : last k.session ≤ (now : WithBot Time)) : InPlace (m k) (t.get k) now := by
  rw [h.get_of_not_taken hk]
  cases hm : m k with
  | none => exact .inl rfl
  | some row =>
    cases halive : row.alive (last k.session) with
    | true => exact .inl (Option.filter_some_pos halive)
    | false =>
      refine .inr ⟨Option.filter_some_neg (by simp [halive]), row, rfl, ?_⟩
      have hnow : row.alive (now : WithBot Time) ≠ true := by
        intro htrue
        rw [SessionRow.alive_of_le hlast htrue] at halive
        cases halive
      rw [SessionRow.alive_coe] at hnow
      simpa using hnow

theorem prune (h : Fits t taken m last) {session : String × String} {now : Time}
    (hlast : last session ≤ now) :
    Fits (pruneExpired t session now) (pruneExpired taken session now) m
      (Function.update last session now) := by
  refine ⟨?_, ?_⟩
  · intro k
    rw [pruneExpired, pruneExpired, Table.get_filter, Table.get_filter]
    have hboth : ∀ p : SessionRow → Bool, ((t.get k).filter p).or ((taken.get k).filter p) =
        ((t.get k).or (taken.get k)).filter p := by
      intro p
      obtain hnone | ⟨hnone, -⟩ := h.apart k
      · simp [hnone]
      · simp [hnone]
    rw [hboth, h.rows k]
    by_cases hk : k.session = session
    · subst hk
      have hpass : (fun row : SessionRow => !(decide (k.session = k.session) && row.expired now)) =
          SessionRow.alive (now : WithBot Time) := by
        funext row
        rw [SessionRow.alive_coe]
        simp
      rw [hpass, Function.update_self]
      exact filter_alive hlast _
    · simp [hk]
  · intro k
    rw [pruneExpired, pruneExpired, Table.get_filter, Table.get_filter]
    obtain hnone | ⟨hnone, hkey⟩ := h.apart k
    · exact .inl (by simp [hnone])
    · exact .inr ⟨by simp [hnone], hkey⟩

/-- Rows that were pruned before are gone for a call that reads now. -/
theorem expire (h : Fits t taken m last) {session : String × String} {now : Time}
    (hlast : last session = now) : Fits t taken (m.expire session now) last := by
  refine ⟨?_, h.apart⟩
  intro k
  rw [h.rows k, Contents.expire]
  split_ifs with hk
  · have hpass : (fun row : SessionRow => !row.expired now) = SessionRow.alive (now : WithBot Time) := by
      funext row
      rw [SessionRow.alive_coe]
    rw [hpass, hk, hlast, filter_alive le_rfl]
  · rfl

theorem remove (h : Fits t taken m last) (k : Slot) :
    Fits (t.remove k) (taken.remove k) (Function.update m k none) last := by
  refine ⟨?_, ?_⟩
  · intro k'
    by_cases hk : k' = k
    · subst hk
      simp [Table.get_remove_self]
    · rw [Table.get_remove_ne hk, Table.get_remove_ne hk, Function.update_of_ne hk, h.rows k']
  · intro k'
    by_cases hk : k' = k
    · subst hk
      exact .inl Table.get_remove_self
    · rw [Table.get_remove_ne hk, Table.get_remove_ne hk]
      exact h.apart k'

theorem clear (h : Fits t taken m last) (session : String × String) :
    Fits (deleteSession t session) (deleteSession taken session) (m.clear session) last := by
  refine ⟨?_, ?_⟩
  · intro k
    rw [deleteSession, deleteSession, Table.get_filter, Table.get_filter, Contents.clear]
    by_cases hk : k.session = session
    · simp [hk]
    · simp only [hk, decide_false, Bool.not_false, filter_pass, if_false, h.rows k]
  · intro k
    rw [deleteSession, deleteSession, Table.get_filter, Table.get_filter]
    obtain hnone | ⟨hnone, hkey⟩ := h.apart k
    · exact .inl (by simp [hnone])
    · exact .inr ⟨by simp [hnone], hkey⟩

/-- The first statement of a `set`. -/
theorem take (h : Fits t taken m last) {k : Slot} (hkey : k.key ≠ "") :
    Fits (t.remove k) (takeRow taken t k) m last := by
  unfold takeRow
  cases hrow : t.get k with
  | none =>
    have hsame : ∀ k', (t.remove k).get k' = t.get k' := by
      intro k'
      by_cases hk : k' = k
      · rw [hk, hrow, Table.get_remove_self]
      · exact Table.get_remove_ne hk
    refine ⟨fun k' => ?_, fun k' => ?_⟩
    · rw [hsame]
      exact h.rows k'
    · rw [hsame]
      exact h.apart k'
  | some row =>
    refine ⟨fun k' => ?_, fun k' => ?_⟩
    · by_cases hk : k' = k
      · subst hk
        have hold := h.rows k'
        rw [hrow, Option.some_or] at hold
        rw [Table.get_remove_self, Option.none_or, Table.get_insert_self, hold]
      · rw [Table.get_remove_ne hk, Table.get_insert_ne hk]
        exact h.rows k'
    · by_cases hk : k' = k
      · subst hk
        exact .inr ⟨Table.get_remove_self, hkey⟩
      · rw [Table.get_remove_ne hk, Table.get_insert_ne hk]
        exact h.apart k'

/-- The second statement of a `set`. -/
theorem create (h : Fits t taken m last) {k : Slot} {row : SessionRow}
    (hrow : row.alive (last k.session) = true) :
    Fits (t.insert k row) (taken.remove k) (Function.update m k (some row)) last := by
  refine ⟨fun k' => ?_, fun k' => ?_⟩
  · by_cases hk : k' = k
    · subst hk
      rw [Table.get_insert_self, Function.update_self, Option.some_or, Option.filter_some_pos hrow]
    · rw [Table.get_insert_ne hk, Table.get_remove_ne hk, Function.update_of_ne hk, h.rows k']
  · by_cases hk : k' = k
    · subst hk
      exact .inl Table.get_remove_self
    · rw [Table.get_insert_ne hk, Table.get_remove_ne hk]
      exact h.apart k'

end Fits

/-! ## One statement -/

/-- The session that a call prunes before it reads. -/
def StateCall.prunes : StateCall → Option (String × String)
  | .get _ sid param | .list sid param => some (resolveNamespace param, sid)
  | .set .. | .delete .. | .clear .. => none

section Statements
variable {db : Surreal} {t taken : SessionTable} {m : Contents}
  {last : String × String → WithBot Time} {call : StateCall} {begun : Bool} {now : Time}

/-- A first statement leaves the contents as they are. -/
theorem Fits.goes_on (h : Fits t taken m last) (hlast : ∀ session, last session ≤ (now : WithBot Time))
    (hmore : (call.statement db t begun now).2 = none) :
    ∃ last', Fits (call.statement db t begun now).1 (call.takes db t taken begun now) m last' ∧
      (∀ session, last session ≤ last' session ∧ last' session ≤ (now : WithBot Time)) ∧
      ∀ session ∈ call.prunes, (now : WithBot Time) ≤ last' session := by
  have hpruned : ∀ session : String × String,
      (∀ session', last session' ≤ Function.update last session (now : WithBot Time) session' ∧
        Function.update last session (now : WithBot Time) session' ≤ (now : WithBot Time)) ∧
      (now : WithBot Time) ≤ Function.update last session (now : WithBot Time) session := by
    intro session
    refine ⟨fun session' => ?_, by simp⟩
    by_cases heq : session' = session
    · subst heq
      simp [hlast session']
    · simp [heq, hlast session']
  cases call with
  | set key value sid param ttl =>
    simp only [StateCall.statement, StateCall.takes] at hmore ⊢
    split_ifs at hmore ⊢ with hbegun hkey
    · split at hmore <;> cases hmore
    · exact ⟨last, h.take hkey, fun session => ⟨le_rfl, hlast session⟩, by simp [StateCall.prunes]⟩
  | get key sid param =>
    simp only [StateCall.statement, StateCall.takes] at hmore ⊢
    split_ifs at hmore ⊢ with hbegun
    obtain ⟨hbetween, hnow⟩ := hpruned (resolveNamespace param, sid)
    refine ⟨_, h.prune (hlast _), hbetween, ?_⟩
    rintro session ⟨⟩
    exact hnow
  | delete key sid param => cases hmore
  | list sid param =>
    simp only [StateCall.statement, StateCall.takes] at hmore ⊢
    split_ifs at hmore ⊢ with hbegun
    obtain ⟨hbetween, hnow⟩ := hpruned (resolveNamespace param, sid)
    refine ⟨_, h.prune (hlast _), hbetween, ?_⟩
    rintro session ⟨⟩
    exact hnow
  | clear sid param => cases hmore

/-- A `get` or `list` reads what is left at the last instant at which its session was pruned. -/
theorem Fits.reads (h : Fits t taken m last) {start : Time} {session : String × String}
    (hstart : (start : WithBot Time) ≤ last session) (hlast : last session ≤ (now : WithBot Time)) :
    ∃ at_ : Time, (start ≤ at_ ∧ at_ ≤ now) ∧ Fits t taken (m.expire session at_) last ∧
      ∀ k : Slot, k.session = session → taken.get k = none → t.get k = m.expire session at_ k := by
  obtain ⟨at_, hat⟩ := WithBot.ne_bot_iff_exists.mp (ne_bot_of_le_ne_bot (by simp) hstart)
  rw [← hat, WithBot.coe_le_coe] at hstart hlast
  refine ⟨at_, ⟨hstart, hlast⟩, h.expire hat.symm, ?_⟩
  rintro k rfl hk
  have hpass : (fun row : SessionRow => !row.expired at_) = SessionRow.alive (at_ : WithBot Time) := by
    funext row
    rw [SessionRow.alive_coe]
  rw [h.get_of_not_taken hk, Contents.expire, if_pos rfl, hpass, hat]

/-- A last statement takes effect as if the call ran alone. -/
theorem Fits.ends (h : Fits t taken m last) (hlast : ∀ session, last session ≤ (now : WithBot Time))
    {start : Time} (hstart : start ≤ now) (hpruned : begun = true → ∀ session ∈ call.prunes,
      (start : WithBot Time) ≤ last session) (hok : call.Undisturbed db taken begun now)
    {reply : Except MemoryError Json} (hreply : (call.statement db t begun now).2 = some reply) :
    ∃ m', Fits (call.statement db t begun now).1 (call.takes db t taken begun now) m' last ∧
      Explains db m ⟨call, reply, start, now, (call.statement db t begun now).1⟩ m' := by
  cases call with
  | set key value sid param ttl =>
    simp only [StateCall.statement, StateCall.takes] at hreply ⊢
    split_ifs at hreply ⊢ with hbegun hkey
    · cases hrow : db.row now value ttl with
      | none =>
        simp only [hrow] at hreply ⊢
        have htaken := hok hbegun hrow
        exact ⟨m, h, .inr ⟨⟨_, (Option.some.inj hreply).symm⟩, rfl, h.inPlace htaken (hlast _)⟩⟩
      | some row =>
        cases hget : t.get (slotOf (resolveNamespace param) sid key) with
        | none =>
          simp only [hrow, hget] at hreply ⊢
          have halive := SessionRow.alive_of_le (hlast (resolveNamespace param, sid))
            (Surreal.row_alive hrow)
          refine ⟨_, h.create halive, .inl ⟨(Option.some.inj hreply).symm, now, row, ⟨hstart, le_rfl⟩, ?_⟩⟩
          exact ⟨hrow, rfl⟩
        | some old =>
          simp only [hrow, hget] at hreply ⊢
          have htaken : taken.get (slotOf (resolveNamespace param) sid key) = none := by
            refine (h.apart _).resolve_right ?_
            rintro ⟨hnone, -⟩
            rw [hget] at hnone
            cases hnone
          exact ⟨m, h, .inr ⟨⟨_, (Option.some.inj hreply).symm⟩, rfl, h.inPlace htaken (hlast _)⟩⟩
    · have htaken : taken.get (slotOf (resolveNamespace param) sid key) = none :=
        (h.apart _).resolve_right fun hnone => hnone.2 hkey
      exact ⟨m, h, .inr ⟨⟨_, (Option.some.inj hreply).symm⟩, rfl, h.inPlace htaken (hlast _)⟩⟩
  | get key sid param =>
    simp only [StateCall.statement, StateCall.takes] at hreply ⊢
    split_ifs at hreply ⊢ with hbegun
    obtain ⟨at_, hat, hfits, hread⟩ := h.reads (hpruned hbegun _ rfl) (hlast _)
    refine ⟨_, hfits, at_, hat, rfl, ?_⟩
    rw [← hread _ rfl (hok hbegun)]
    exact (Option.some.inj hreply).symm
  | delete key sid param => exact ⟨_, h.remove _, rfl⟩
  | list sid param =>
    simp only [StateCall.statement, StateCall.takes] at hreply ⊢
    split_ifs at hreply ⊢ with hbegun
    obtain ⟨at_, hat, hfits, -⟩ := h.reads (hpruned hbegun _ rfl) (hlast _)
    exact ⟨_, hfits, at_, hat, rfl⟩
  | clear sid param => exact ⟨_, h.clear _, rfl⟩

end Statements

/-! ## Runs -/

/-- The contents after the calls that have returned, and the last instant at which each session was
pruned. -/
structure Tracks (db : Surreal) (m₀ : Contents) (s : SessionState) (m : Contents)
    (last : String × String → WithBot Time) : Prop where
  fits : Fits s.table s.taken m last
  past : ∀ session, last session ≤ (s.clock : WithBot Time)
  flights : ∀ f ∈ s.inFlight, f.start ≤ s.clock ∧ f.invoked < s.stamp
  pruned : ∀ f ∈ s.inFlight, f.begun = true → ∀ session ∈ f.call.prunes,
    (f.start : WithBot Time) ≤ last session
  explained : Sequential (Explains db) m₀ (s.history.map Completed.op) m
  stamped : Stamped s.history s.stamp

section Runs
variable {db : Surreal} {m₀ m : Contents} {s : SessionState}
  {last : String × String → WithBot Time} {now : Time}

theorem tracks_started (t : SessionTable) (now : Time) :
    Tracks db t.get (.started t now) t.get fun _ => ⊥ where
  fits := by
    refine ⟨fun k => ?_, fun k => .inl rfl⟩
    have hpass : SessionRow.alive ⊥ = fun _ => true := by
      funext row
      exact row.alive_bot
    rw [hpass, filter_pass]
    exact Option.or_none
  past := by
    intro session
    exact bot_le
  flights := by simp [SessionState.started]
  pruned := by simp [SessionState.started]
  explained := .nil _
  stamped := .nil _

theorem Tracks.invoke (h : Tracks db m₀ s m last) (call : StateCall) (hnow : s.clock ≤ now) :
    Tracks db m₀ (s.invoke call now) m last where
  fits := h.fits
  past := fun session => (h.past session).trans (WithBot.coe_le_coe.mpr hnow)
  flights := by
    intro f hf
    obtain hf | hf := List.mem_append.mp hf
    · obtain ⟨hstart, hinvoked⟩ := h.flights f hf
      exact ⟨hstart.trans hnow, Nat.lt_succ_of_lt hinvoked⟩
    · rw [List.mem_singleton] at hf
      subst hf
      exact ⟨le_rfl, Nat.lt_succ_self _⟩
  pruned := by
    intro f hf hbegun
    obtain hf | hf := List.mem_append.mp hf
    · exact h.pruned f hf hbegun
    · rw [List.mem_singleton] at hf
      subst hf
      cases hbegun
  explained := h.explained
  stamped := h.stamped.mono (Nat.le_succ _)

theorem Tracks.advance (h : Tracks db m₀ s m last) {i : ℕ} {f : Flight} (hf : s.inFlight[i]? = some f)
    (hnow : s.clock ≤ now) (hok : f.call.Undisturbed db s.taken f.begun now) :
    ∃ m' last', Tracks db m₀ (s.advance db i f now) m' last' := by
  have hmem : f ∈ s.inFlight := List.mem_of_getElem? hf
  obtain ⟨hstart, hinvoked⟩ := h.flights f hmem
  have hclock : (s.clock : WithBot Time) ≤ now := WithBot.coe_le_coe.mpr hnow
  have hlast : ∀ session, last session ≤ (now : WithBot Time) :=
    fun session => (h.past session).trans hclock
  unfold SessionState.advance
  cases hreply : (f.call.statement db s.table f.begun now).2 with
  | none =>
    simp only
    obtain ⟨last', hfits, hbetween, hprunes⟩ := h.fits.goes_on hlast hreply
    refine ⟨m, last', hfits, fun session => (hbetween session).2, ?_, ?_, h.explained,
      h.stamped.mono (Nat.le_succ _)⟩
    · intro g hg
      obtain hg | rfl := List.mem_or_eq_of_mem_set hg
      · exact ⟨(h.flights g hg).1.trans hnow, Nat.lt_succ_of_lt (h.flights g hg).2⟩
      · exact ⟨hstart.trans hnow, Nat.lt_succ_of_lt hinvoked⟩
    · intro g hg hbegun session hsession
      obtain hg | rfl := List.mem_or_eq_of_mem_set hg
      · exact (h.pruned g hg hbegun session hsession).trans (hbetween session).1
      · exact (WithBot.coe_le_coe.mpr (hstart.trans hnow)).trans (hprunes session hsession)
  | some reply =>
    simp only
    obtain ⟨m', hfits, hexplains⟩ :=
      h.fits.ends hlast (hstart.trans hnow) (h.pruned f hmem) hok hreply
    refine ⟨m', last, hfits, hlast, ?_, ?_, ?_, ?_⟩
    · intro g hg
      have hg' := List.mem_of_mem_eraseIdx hg
      exact ⟨(h.flights g hg').1.trans hnow, Nat.lt_succ_of_lt (h.flights g hg').2⟩
    · intro g hg
      exact h.pruned g (List.mem_of_mem_eraseIdx hg)
    · simp only [SessionState.finish, List.map_append]
      exact h.explained.concat hexplains
    · exact h.stamped.concat hinvoked.le rfl

/-- The calls of a run that no `set` disturbs are explained by the order of their last statements. -/
theorem session_calls_linearizable (db : Surreal) (t : SessionTable) (now : Time) (s : SessionState)
    (h : ReachesBy (fun s a s' => SessionState.apply db s a = some s') (Undisturbed db)
      (· = .started t now) s) : Linearizable (Explains db) t.get s.history := by
  obtain ⟨m, last, htracks⟩ : ∃ m last, Tracks db t.get s m last := by
    induction h with
    | start h =>
      subst h
      exact ⟨_, _, tracks_started t now⟩
    | @tail s s' a _ hok hstep ih =>
      obtain ⟨m, last, htracks⟩ := ih
      cases a with
      | invoke call now =>
        simp only [SessionState.apply] at hstep
        split_ifs at hstep with hnow
        cases hstep
        exact ⟨m, last, htracks.invoke call hnow⟩
      | advance i now =>
        simp only [SessionState.apply] at hstep
        split_ifs at hstep with hnow
        obtain ⟨f, hf, rfl⟩ := Option.map_eq_some_iff.mp hstep
        exact htracks.advance hf hnow (hok f hf)
  exact htracks.stamped.linearizable htracks.explained

end Runs

/-- The last instant that `chrono` can represent, at the end of the year 262142. -/
def lastInstant : Time := 8210266876799999999999

/-- Expiries up to the last instant can be computed. -/
def sampleDb : Surreal where
  expiresAt now ttl := if now + ttl * 1000000000 ≤ lastInstant then some (now + ttl * 1000000000) else none
  later := by
    intro now ttl e hpos he
    split_ifs at he
    obtain rfl := Option.some.inj he
    exact Int.le_add_of_nonneg_right (Int.mul_nonneg hpos.le (by decide))
  createError := "There was a problem with the database"

def setPlan (n : ℕ) (ttl : Option ℤ) : StateCall := .set "plan" (.ofNat n) "s" none ttl

def getPlan : StateCall := .get "plan" "s" none

/-- A run that no `set` disturbs: two overlapping `set`s, of which the second fails, and a `get`. -/
def overlapping : List StateMove :=
  [.invoke (setPlan 1 none) 0, .invoke (setPlan 2 none) 0, .advance 0 1, .advance 1 2, .advance 0 3,
    .advance 0 4, .invoke getPlan 5, .advance 0 6, .advance 0 7]

def undisturbedRun (moves : List StateMove) : Option SessionState :=
  exec (fun s a => if Undisturbed sampleDb s a then SessionState.apply sampleDb s a else none)
    (.started .empty 0) moves

theorem overlapping_linearizable : ∃ s : SessionState, s.history.length = 3 ∧
    Linearizable (Explains sampleDb) (Table.get .empty) s.history := by
  obtain ⟨s, hs⟩ := Option.isSome_iff_exists.mp
    (show (undisturbedRun overlapping).isSome = true by decide +kernel)
  have hlength : ∀ s ∈ undisturbedRun overlapping, s.history.length = 3 := by decide +kernel
  refine ⟨s, hlength s hs, session_calls_linearizable sampleDb .empty 0 s ?_⟩
  exact exec_guarded_reachesBy (fun _ _ _ ha => ha) (.start rfl) hs

/-! ## What no order explains -/

/-- The call leaves a lasting value in the slot, if there is one. -/
def Ended.Keeps (slot : Slot) (c : Ended) : Prop :=
  match c.call with
  | .set key value sid param ttl => slotOf (resolveNamespace param) sid key = slot →
      (∃ e, c.reply = .error e) ∨ (∀ seconds ∈ ttl, seconds ≤ 0) ∧ value ≠ .null
  | .delete key sid param => slotOf (resolveNamespace param) sid key ≠ slot
  | .clear sid param => slot.session ≠ (resolveNamespace param, sid)
  | .get .. | .list .. => True

/-- There is a value in the slot, and it does not expire. -/
def Lasting (slot : Slot) (m : Contents) : Prop :=
  ∃ row, m slot = some row ∧ row.expiresAt = none ∧ row.value ≠ .null

theorem Surreal.row_of_lasting {db : Surreal} {now : Time} {value : Json} {ttl : Option ℤ}
    (h : ∀ seconds ∈ ttl, seconds ≤ 0) : db.row now value ttl = some ⟨value, none⟩ := by
  cases ttl with
  | none => rfl
  | some seconds =>
    have hle := h seconds rfl
    exact if_neg (by omega)

theorem Lasting.expire {slot : Slot} {m : Contents} (h : Lasting slot m) (session : String × String)
    (now : Time) : Lasting slot (m.expire session now) := by
  obtain ⟨row, hrow, hexpires, hvalue⟩ := h
  refine ⟨row, ?_, hexpires, hvalue⟩
  have hpass : row.expired now = false := by simp [SessionRow.expired, hexpires]
  unfold Contents.expire
  split_ifs
  · rw [hrow, Option.filter_some_pos (by simp [hpass])]
  · exact hrow

theorem lasting_set {db : Surreal} {slot : Slot} {m m' : Contents} {c : Ended} {key sid : String}
    {value : Json} {param : Option String} {ttl : Option ℤ} {reply : Json}
    (hcall : c.call = .set key value sid param ttl) (hreply : c.reply = .ok reply)
    (hslot : slotOf (resolveNamespace param) sid key = slot) (hkeeps : c.Keeps slot)
    (h : Explains db m c m') : Lasting slot m' := by
  unfold Ended.Keeps at hkeeps
  rw [hcall] at hkeeps
  obtain ⟨e, he⟩ | ⟨httl, hvalue⟩ := hkeeps hslot
  · rw [hreply] at he
    cases he
  unfold Explains at h
  rw [hcall] at h
  obtain ⟨-, now, row, -, hrow, rfl⟩ | ⟨⟨e, he⟩, -⟩ := h
  · rw [Surreal.row_of_lasting httl] at hrow
    obtain rfl := Option.some.inj hrow
    exact ⟨_, by rw [hslot, Function.update_self], rfl, hvalue⟩
  · rw [hreply] at he
    cases he

theorem Lasting.explains {db : Surreal} {slot : Slot} {m m' : Contents} {c : Ended}
    (hm : Lasting slot m) (hkeeps : c.Keeps slot) (h : Explains db m c m') :
    Lasting slot m' := by
  have heffect := h
  have hkept := hkeeps
  unfold Explains at heffect
  unfold Ended.Keeps at hkept
  cases hcall : c.call with
  | set key value sid param ttl =>
    rw [hcall] at heffect
    obtain ⟨hreply, now, row, -, -, rfl⟩ | ⟨-, rfl, -⟩ := heffect
    · by_cases hslot : slotOf (resolveNamespace param) sid key = slot
      · exact lasting_set hcall hreply hslot hkeeps h
      · obtain ⟨old, hold, hrest⟩ := hm
        exact ⟨old, by rw [Function.update_of_ne (Ne.symm hslot), hold], hrest⟩
    · exact hm
  | get key sid param =>
    rw [hcall] at heffect
    obtain ⟨now, -, rfl, -⟩ := heffect
    exact hm.expire _ now
  | delete key sid param =>
    rw [hcall] at heffect hkept
    obtain rfl : m' = _ := heffect
    obtain ⟨old, hold, hrest⟩ := hm
    exact ⟨old, by rw [Function.update_of_ne (Ne.symm hkept), hold], hrest⟩
  | list sid param =>
    rw [hcall] at heffect
    obtain ⟨now, -, rfl⟩ := heffect
    exact hm.expire _ now
  | clear sid param =>
    rw [hcall] at heffect hkept
    obtain rfl : m' = _ := heffect
    obtain ⟨old, hold, hrest⟩ := hm
    exact ⟨old, by rw [Contents.clear, if_neg hkept, hold], hrest⟩

section NeverGone
variable {db : Surreal} {m₀ : Contents} {history : List (Completed Ended)} {a b : Completed Ended}
  {key sid : String} {value : Json} {param : Option String} {ttl : Option ℤ} {reply : Json}

/-- Behind a `set` without an expiry, in a history without a `delete` or `clear`, every call finds a
value. -/
theorem lasting_at (h : Linearizable (Explains db) m₀ history) (ha : a ∈ history) (hb : b ∈ history)
    (hne : b ≠ a) (hab : Precedes a b) (hset : a.op.call = .set key value sid param ttl)
    (hreply : a.op.reply = .ok reply)
    (hkeeps : ∀ c ∈ history, c.op.Keeps (slotOf (resolveNamespace param) sid key)) :
    ∃ m m', Lasting (slotOf (resolveNamespace param) sid key) m ∧ Explains db m b.op m' := by
  refine h.holds_at ha hb hne hab ?_ ?_
  · intro m m' hexplains
    exact lasting_set hset hreply rfl (hkeeps a ha) hexplains
  · intro c hc m m' hm hexplains
    exact hm.explains (hkeeps c hc) hexplains

theorem get_not_null (h : Linearizable (Explains db) m₀ history) (ha : a ∈ history) (hb : b ∈ history)
    (hne : b ≠ a) (hab : Precedes a b) (hset : a.op.call = .set key value sid param ttl)
    (hreply : a.op.reply = .ok reply)
    (hkeeps : ∀ c ∈ history, c.op.Keeps (slotOf (resolveNamespace param) sid key))
    (hget : b.op.call = .get key sid param) :
    b.op.reply ≠ .ok (getReply key sid (resolveNamespace param) .null) := by
  obtain ⟨m, m', hm, hexplains⟩ := lasting_at h ha hb hne hab hset hreply hkeeps
  unfold Explains at hexplains
  rw [hget] at hexplains
  obtain ⟨now, -, rfl, hanswer⟩ := hexplains
  obtain ⟨row, hrow, -, hvalue⟩ := hm.expire (resolveNamespace param, sid) now
  rw [hanswer, hrow]
  intro heq
  simp only [getReply, Except.ok.injEq, Json.obj.injEq, List.cons.injEq, Prod.mk.injEq] at heq
  exact hvalue (by simpa using heq)

theorem failed_set_in_place (h : Linearizable (Explains db) m₀ history) (ha : a ∈ history)
    (hb : b ∈ history) (hne : b ≠ a) (hab : Precedes a b)
    (hset : a.op.call = .set key value sid param ttl) (hreply : a.op.reply = .ok reply)
    (hkeeps : ∀ c ∈ history, c.op.Keeps (slotOf (resolveNamespace param) sid key))
    {value' : Json} {ttl' : Option ℤ} {e : MemoryError}
    (hagain : b.op.call = .set key value' sid param ttl') (herror : b.op.reply = .error e) :
    b.op.table.get (slotOf (resolveNamespace param) sid key) ≠ none := by
  obtain ⟨m, m', ⟨row, hrow, hexpires, -⟩, hexplains⟩ := lasting_at h ha hb hne hab hset hreply hkeeps
  unfold Explains at hexplains
  rw [hagain] at hexplains
  obtain ⟨hok, -⟩ | ⟨-, -, hsame | ⟨-, row', hrow', hexpired⟩⟩ := hexplains
  · rw [herror] at hok
    cases hok
  · rw [hsame, hrow]
    simp
  · rw [hrow] at hrow'
    obtain rfl := Option.some.inj hrow'
    simp [SessionRow.expired, hexpires] at hexpired

end NeverGone

/-! ## Runs that no order explains -/

def planRun (moves : List StateMove) : Option SessionState :=
  exec (SessionState.apply sampleDb) (.started .empty 0) moves

/-- A `set` that has returned, another one between its statements, and a `get`. -/
def readBetween : List StateMove :=
  [.invoke (setPlan 1 none) 0, .advance 0 1, .advance 0 2, .invoke (setPlan 2 none) 3, .advance 0 4,
    .invoke getPlan 5, .advance 1 6, .advance 1 7]

/-- `i64::MAX`. -/
def maxTtl : ℤ := 9223372036854775807

/-- A `set` that has returned, and one whose expiry cannot be computed. -/
def failBetween : List StateMove :=
  [.invoke (setPlan 1 none) 0, .advance 0 1, .advance 0 2, .invoke (setPlan 2 (some maxTtl)) 3,
    .advance 0 4, .advance 0 5]

def replies (s : SessionState) : List (StateCall × Except MemoryError Json × ℕ × ℕ) :=
  s.history.map fun c => (c.op.call, c.op.reply, c.invoked, c.returned)

def Ran (s : SessionState) : Prop :=
  Reaches (fun s a s' => SessionState.apply sampleDb s a = some s') (· = .started .empty 0) s

theorem ran_of_planRun {moves : List StateMove} {s : SessionState} (h : planRun moves = some s) :
    Ran s := exec_reaches (fun _ _ _ ha => ha) (.start rfl) h

def planSlot : Slot := slotOf "default" "s" "plan"

/-- A history of two calls, of which the first is a `set` that has returned when the second begins. -/
theorem plan_then {s : SessionState} {call : StateCall} {answer : Except MemoryError Json}
    {invoked returned : ℕ} (h : replies s =
      [(setPlan 1 none, .ok (setReply "plan" "s" "default" none), 0, 2), (call, answer, invoked, returned)])
    (hlater : 2 < invoked) : ∃ a ∈ s.history, ∃ b ∈ s.history, b ≠ a ∧ Precedes a b ∧
      a.op.call = setPlan 1 none ∧ a.op.reply = .ok (setReply "plan" "s" "default" none) ∧
      b.op.call = call ∧ b.op.reply = answer ∧
      (b.op.Keeps planSlot → ∀ c ∈ s.history, c.op.Keeps planSlot) := by
  obtain ⟨a, rest, hs, ha, hrest⟩ := List.map_eq_cons_iff.mp h
  obtain ⟨b, rest', rfl, hb, hnil⟩ := List.map_eq_cons_iff.mp hrest
  obtain rfl := List.map_eq_nil_iff.mp hnil
  simp only [Prod.mk.injEq] at ha hb
  obtain ⟨hset, hreply, hinvoked, hreturned⟩ := ha
  obtain ⟨hcall, hanswer, hbegun, -⟩ := hb
  refine ⟨a, hs ▸ by simp, b, hs ▸ by simp, ?_, ?_, hset, hreply, hcall, hanswer, ?_⟩
  · rintro rfl
    omega
  · rw [Precedes, hreturned, hbegun]
    exact hlater
  · intro hkeeps c hc
    rw [hs, List.mem_cons, List.mem_singleton] at hc
    obtain rfl | rfl := hc
    · unfold Ended.Keeps
      rw [hset]
      exact fun _ => .inr ⟨by simp, by simp [Json.ofNat]⟩
    · exact hkeeps

theorem readBetween_not_linearizable {s : SessionState} (h : replies s =
    [(setPlan 1 none, .ok (setReply "plan" "s" "default" none), 0, 2),
      (getPlan, .ok (getReply "plan" "s" "default" .null), 5, 7)]) :
    ¬ Linearizable (Explains sampleDb) (Table.get .empty) s.history := by
  intro hlin
  obtain ⟨a, ha, b, hb, hne, hab, hset, hreply, hget, hnull, hkeeps⟩ := plan_then h (by decide)
  refine get_not_null hlin ha hb hne hab hset hreply (hkeeps ?_) hget hnull
  unfold Ended.Keeps
  rw [hget]
  exact trivial

theorem failBetween_not_linearizable {s : SessionState} (h : replies s =
    [(setPlan 1 none, .ok (setReply "plan" "s" "default" none), 0, 2),
      (setPlan 2 (some maxTtl), .error (.operationFailed sampleDb.createError), 3, 5)])
    (hgone : ∀ c ∈ s.history, c.op.reply = .error (.operationFailed sampleDb.createError) →
      c.op.table.get planSlot = none) :
    ¬ Linearizable (Explains sampleDb) (Table.get .empty) s.history := by
  intro hlin
  obtain ⟨a, ha, b, hb, hne, hab, hset, hreply, hagain, herror, hkeeps⟩ := plan_then h (by decide)
  refine failed_set_in_place hlin ha hb hne hab hset hreply (hkeeps ?_) hagain herror
    (hgone b hb herror)
  unfold Ended.Keeps
  rw [hagain]
  exact fun _ => .inl ⟨_, herror⟩

/-- Between the statements of the second `set` the value of the first is gone, and for good when the
second fails. -/
theorem session_set_not_atomic :
    (∃ s, Ran s ∧ ¬ Linearizable (Explains sampleDb) (Table.get .empty) s.history) ∧
    ∃ s, Ran s ∧ s.inFlight.length = 0 ∧ s.table.get planSlot = none ∧
      ¬ Linearizable (Explains sampleDb) (Table.get .empty) s.history := by
  refine ⟨?_, ?_⟩
  · obtain ⟨s, hs⟩ := Option.isSome_iff_exists.mp
      (show (planRun readBetween).isSome = true by decide +kernel)
    refine ⟨s, ran_of_planRun hs, readBetween_not_linearizable ?_⟩
    have hreplies : (planRun readBetween).map replies =
        some [(setPlan 1 none, .ok (setReply "plan" "s" "default" none), 0, 2),
          (getPlan, .ok (getReply "plan" "s" "default" .null), 5, 7)] := by decide +kernel
    rw [hs] at hreplies
    exact Option.some.inj hreplies
  · obtain ⟨s, hs⟩ := Option.isSome_iff_exists.mp
      (show (planRun failBetween).isSome = true by decide +kernel)
    have hreplies : (planRun failBetween).map replies =
        some [(setPlan 1 none, .ok (setReply "plan" "s" "default" none), 0, 2),
          (setPlan 2 (some maxTtl), .error (.operationFailed sampleDb.createError), 3, 5)] := by
      decide +kernel
    have htables : ∀ s ∈ planRun failBetween, s.inFlight.length = 0 ∧ s.table.get planSlot = none ∧
        ∀ c ∈ s.history, c.op.reply = .error (.operationFailed sampleDb.createError) →
          c.op.table.get planSlot = none := by decide +kernel
    rw [hs] at hreplies
    obtain ⟨hflight, hempty, hgone⟩ := htables s hs
    exact ⟨s, ran_of_planRun hs, hflight, hempty,
      failBetween_not_linearizable (Option.some.inj hreplies) hgone⟩

end Konf.Memory
