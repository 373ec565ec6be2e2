import Cfd.Tunnel.Lifecycle

/-!
# Who owns the connection

The invariants of the pointer `connection_`. `Locked` is about `close_mu_`: only one of the two
threads resets the pointer at a time, `main` does so only behind the store of `g_stop`, and a thread
that resets it is not between the close of a connection and the store of the next. `Owned` says
where a connection that has been opened and not closed can be: in the pointer, in a close that has
taken it out, with the thread that is about to store it, or nowhere, which happens to a connection
that is stored between the two halves of a reset by `main`.

From these: what the pointer holds has not been closed (`Slotted.held`), between two connections none
is open (`Slotted.not_open`), and an open connection is the one opened since the last reset of the
flags (`Slotted.mine`).
-/

set_option autoImplicit false

namespace Cfd.Tunnel.Session

open Cfd.Base

namespace View

variable {v : View}

/-! ## The lock -/

/-- `close_mu_` and the positions that it guards. -/
structure Locked (v : View) : Prop where
  mutex : ∀ who, v.inside who = true → v.closeMu = some who
  resetInside : ∀ who p, v.op who = .reset p → v.inside who = true
  stopped : v.down = true → v.gStop = true
  mainDown : v.inside .main = true → v.down = true
  resetPhase : ∀ p, v.op .thread = .reset p → v.phase ≠ .prep

/-- At most one thread resets the pointer. -/
theorem Locked.only (hv : v.Locked) {who who' : Closer} {p q : AssignPc} (h : v.op who = .reset p)
    (h' : v.op who' = .reset q) : who' = who := by
  have hwho := hv.mutex who (hv.resetInside who p h)
  have hwho' := hv.mutex who' (hv.resetInside who' q h')
  exact Option.some.inj (hwho'.symm.trans hwho)

@[simp] theorem op_setOp (v : View) (who : Closer) (o : ConnOp) (who' : Closer) :
    (v.setOp who o).op who' = if who' = who then o else v.op who' := by
  cases who <;> cases who' <;> rfl

@[simp] theorem op_finish (v : View) (who who' : Closer) :
    (v.finish who).op who' = if who' = who then .none else v.op who' := by
  cases who <;> cases who' <;> rfl

@[simp] theorem inside_setInside (v : View) (who who' : Closer) (b : Bool) :
    (v.setInside who b).inside who' = if who' = who then b else v.inside who' := by
  cases who <;> cases who' <;> rfl

/-- A change of the position of a thread that is inside keeps the lock's invariant. -/
theorem Locked.setOp (hv : v.Locked) {who : Closer} {p : AssignPc} (hin : v.inside who = true)
    (hphase : who = .thread → v.phase ≠ .prep) : (v.setOp who (.reset p)).Locked where
  mutex := hv.mutex
  resetInside who' q h := by
    rw [op_setOp] at h
    split at h
    next heq => exact heq ▸ hin
    next => exact hv.resetInside who' q h
  stopped := hv.stopped
  mainDown := hv.mainDown
  resetPhase q h := by
    rw [op_setOp] at h
    split at h
    next heq => exact hphase heq.symm
    next => exact hv.resetPhase q h

/-- The end of a reset keeps the lock's invariant. -/
theorem Locked.finish (hv : v.Locked) (who : Closer) : (v.finish who).Locked where
  mutex := hv.mutex
  resetInside who' q h := by
    rw [op_finish] at h
    split at h
    · cases h
    · exact hv.resetInside who' q h
  stopped := hv.stopped
  mainDown := hv.mainDown
  resetPhase q h := by
    rw [op_finish] at h
    split at h
    · cases h
    next hne =>
      cases who with
      | thread => exact absurd rfl hne
      | main => exact hv.resetPhase q h

/-- A store, its end or its beginning keeps the lock's invariant. -/
theorem Locked.setStore (hv : v.Locked) {o : ConnOp} (ho : ∀ p, o ≠ .reset p) :
    (v.setOp .thread o).Locked where
  mutex := hv.mutex
  resetInside
    | .thread, q, h => absurd h (ho q)
    | .main, q, h => hv.resetInside .main q h
  stopped := hv.stopped
  mainDown := hv.mainDown
  resetPhase q h := absurd h (ho q)

end View

/-- **A move keeps the lock's invariant.** -/
theorem Move.locked {v v' : View} {a : Action} (hv : v.Locked) (h : Move v a v') : v'.Locked := by
  cases h with
  | stay => exact hv
  | top | giveUp => exact { hv with resetPhase := fun _ _ => nofun }
  | install | clearHandler | clearDisc | resetFlags | succeed | start | connected | shutdownEvent |
    connectedLock | copy | noCopy | fire | noFire => exact { hv with }
  | lock who hby hfree hop hdown =>
    refine { hv with mutex := ?_, resetInside := ?_, mainDown := ?_ }
    · intro who' hin
      rw [View.inside_setInside] at hin
      split at hin
      next heq => exact heq ▸ rfl
      next => exact absurd (hv.mutex who' hin) (hfree ▸ nofun)
    · intro who' p hp
      rw [View.inside_setInside]
      split
      · rfl
      · exact hv.resetInside who' p hp
    · intro hin
      rw [View.inside_setInside] at hin
      split at hin
      next heq => exact hdown heq.symm
      next => exact hv.mainDown hin
  | unlock who hby hinside hop =>
    refine { hv with mutex := ?_, resetInside := ?_, mainDown := ?_ }
    · intro who' hin
      rw [View.inside_setInside] at hin
      split at hin
      · cases hin
      next hne =>
        have hsame := (hv.mutex who' hin).symm.trans (hv.mutex who hinside)
        exact absurd (Option.some.inj hsame) hne
    · intro who' p hp
      rw [View.inside_setInside]
      split
      next heq =>
        have hnone : v.op who' = .none := heq ▸ hop
        exact absurd (hnone.symm.trans hp) nofun
      next => exact hv.resetInside who' p hp
    · intro hin
      rw [View.inside_setInside] at hin
      split at hin
      · cases hin
      · exact hv.mainDown hin
  | beginReset who hby hin hop hphase => exact hv.setOp hin hphase
  | read who hby hop =>
    exact hv.setOp (hv.resetInside who _ hop) fun heq => hv.resetPhase _ (heq ▸ hop)
  | writeNull who hby hop | drain who hby hop =>
    refine View.Locked.finish ?_ who
    exact { hv with }
  | write who hby hop | call who hby hop =>
    refine View.Locked.setOp ?_ (hv.resetInside who _ hop) fun heq => hv.resetPhase _ (heq ▸ hop)
    exact { hv with }
  | @openConn _ parent hstage hphase hop =>
    have hnew : ({ v.openConn parent with threadOp := v.threadOp } : View).Locked := { hv with }
    exact hnew.setStore nofun
  | storeRead | storeCall | storeDrain =>
    refine View.Locked.setStore ?_ nofun
    exact { hv with }
  | storeNull | store =>
    refine View.Locked.setStore ?_ nofun
    exact { hv with resetPhase := fun _ _ => nofun }
  | signal => exact { hv with stopped := fun _ => rfl }
  | shutdown => exact { hv with stopped := fun _ => rfl, mainDown := fun _ => rfl }

/-! ## The pointer -/

/-- Busy with this connection, which the pointer does not hold. -/
def ConnOp.Owns (o : ConnOp) (h : Handle) : Prop :=
  o = .reset (.call h) ∨ o = .reset (.drain h) ∨ ∃ p, o = .store h p

namespace Slot

variable {v : Slot}

/-- Where a connection that is open can be: held, with one of the threads, or overwritten during the
shutdown. -/
def Owned (v : Slot) (h : Handle) : Prop :=
  v.held = some h ∨ (∃ who, (v.op who).Owns h) ∨ (v.down = true ∧ v.phase = .late)

/-- What holds while a thread is at this position of a reset. -/
def Resetting (v : Slot) : AssignPc → Prop
  | .read => True
  | .write none => v.held = none ∨ v.down = true ∧ v.phase = .late
  | .write (some old) => v.held = some old ∧ v.phase ≠ .prep
  | .call _ => v.held = none ∧ v.phase ≠ .prep
  | .drain old => v.held = none ∧ v.phase ≠ .prep ∧ (v.handles old).closing = true

/-- What holds while a thread is storing a connection: nothing has to be closed for it. -/
def Storing (v : Slot) (who : Closer) (raw : Handle) (p : AssignPc) : Prop :=
  who = .thread ∧ (p = .read ∨ p = .write none) ∧ v.phase = .prep ∧ v.Live raw

/-- The pointer, the positions of both threads, and the open connections. -/
structure Slotted (v : Slot) : Prop where
  held : ∀ h, v.held = some h → v.Live h
  resetting : ∀ who p, v.op who = .reset p → v.Resetting p
  storing : ∀ who raw p, v.op who = .store raw p → v.Storing who raw p
  prepNull : v.phase = .prep → v.held = none
  owned : ∀ h, v.Open h → v.Owned h
  mine : ∀ h, v.Open h → v.mine = some h

/-- Between two connections, an open one is about to be stored. -/
theorem Slotted.prep_open (hv : v.Slotted) (hphase : v.phase = .prep) {h : Handle}
    (hopen : v.Open h) : ∃ p, v.op .thread = .store h p := by
  rcases hv.owned h hopen with hheld | ⟨who, hcall | hdrain | ⟨p, hstore⟩⟩ | ⟨-, hlate⟩
  · cases hheld.symm.trans (hv.prepNull hphase)
  · exact absurd hphase (hv.resetting who _ hcall).2
  · exact absurd hphase (hv.resetting who _ hdrain).2.1
  · obtain ⟨rfl, -⟩ := hv.storing who h p hstore
    exact ⟨p, hstore⟩
  · cases hphase.symm.trans hlate

/-- **Between two connections none is open.** -/
theorem Slotted.not_open (hv : v.Slotted) (hphase : v.phase = .prep) (hop : v.op .thread = .none)
    (h : Handle) : ¬v.Open h := by
  intro hopen
  obtain ⟨p, hstore⟩ := hv.prep_open hphase hopen
  cases hop.symm.trans hstore

/-- Where a connection is, after a step that takes each place to a place. -/
theorem Owned.mono {w : Slot} {h : Handle} (hown : v.Owned h) (hheld : v.held = some h → w.Owned h)
    (hop : ∀ who, (v.op who).Owns h → ∃ who, (w.op who).Owns h)
    (hlate : v.down = true → v.phase = .late → w.down = true ∧ w.phase = .late) : w.Owned h := by
  rcases hown with hwas | ⟨who, howns⟩ | ⟨hdown, hwas⟩
  · exact hheld hwas
  · exact Or.inr (Or.inl (hop who howns))
  · exact Or.inr (Or.inr (hlate hdown hwas))

/-- What a reset relies on does not depend on the phase, as long as a connection is not lost. -/
theorem Resetting.setPhase {p : AssignPc} (hp : v.Resetting p) {phase : Phase}
    (hphase : phase ≠ .prep) (hlate : v.down = true → v.phase = .late → phase = .late) :
    Resetting { v with phase } p :=
  match p, hp with
  | .read, _ => trivial
  | .write none, .inl hnull => .inl hnull
  | .write none, .inr ⟨hdown, hwas⟩ => .inr ⟨hdown, hlate hdown hwas⟩
  | .write (some _), ⟨hheld, _⟩ => ⟨hheld, hphase⟩
  | .call _, ⟨hnull, _⟩ => ⟨hnull, hphase⟩
  | .drain _, ⟨hnull, _, hclosing⟩ => ⟨hnull, hphase, hclosing⟩

/-- A thread that does not store comes to the top of its loop, or behind a connection. -/
theorem Slotted.setPhase (hv : v.Slotted) {phase : Phase} (hphase : phase ≠ .prep)
    (hop : v.op .thread = .none) (hlate : v.down = true → v.phase = .late → phase = .late) :
    Slotted { v with phase } where
  held := hv.held
  resetting who p h := (hv.resetting who p h).setPhase hphase hlate
  storing who raw p h := by
    obtain ⟨rfl, -⟩ := hv.storing who raw p h
    cases hop.symm.trans h
  prepNull h := absurd h hphase
  owned h hopen :=
    (hv.owned h hopen).mono Or.inl (fun who howns => ⟨who, howns⟩) fun hdown hwas =>
      ⟨hdown, hlate hdown hwas⟩
  mine := hv.mine

/-- `main` begins its shutdown. -/
theorem Slotted.shutdown (hv : v.Slotted) : Slotted { v with down := true } where
  held := hv.held
  resetting who p h :=
    match p, hv.resetting who p h with
    | .read, _ => trivial
    | .write none, hwas => hwas.imp_right fun hlate => ⟨rfl, hlate.2⟩
    | .write (some _), hwas => hwas
    | .call _, hwas => hwas
    | .drain _, hwas => hwas
  storing := hv.storing
  prepNull := hv.prepNull
  owned h hopen :=
    (hv.owned h hopen).mono Or.inl (fun who howns => ⟨who, howns⟩) fun _ hwas => ⟨rfl, hwas⟩
  mine := hv.mine

end Slot

namespace View

variable {v : View}

/-- A thread takes up a reset, or goes on in one up to the write. -/
theorem slotted_setReset (hv : v.Slotted) {who : Closer} {p : AssignPc} (hp : v.Resetting p)
    (hop : ∀ h, ¬(v.op who).Owns h) : (v.setOp who (.reset p)).Slotted where
  held := hv.held
  resetting who' q h := by
    rw [op_setOp] at h
    split at h
    · cases h
      exact hp
    · exact hv.resetting who' q h
  storing who' raw q h := by
    rw [op_setOp] at h
    split at h
    · cases h
    · exact hv.storing who' raw q h
  prepNull := hv.prepNull
  owned h hopen := by
    refine (hv.owned h hopen).mono Or.inl (fun who' howns => ⟨who', ?_⟩) fun hdown hwas =>
      ⟨hdown, hwas⟩
    have hne : who' ≠ who := fun heq => hop h (heq ▸ howns)
    rwa [op_setOp, if_neg hne]
  mine := hv.mine

/-- A step of the one thread that resets the pointer, as far as `Slotted.resetting` goes. -/
theorem Locked.resetting {w : Slot} (hlock : v.Locked) {who : Closer} {p : AssignPc} {o : ConnOp}
    (hop : v.op who = .reset p) (hw : ∀ who', w.op who' = if who' = who then o else v.op who')
    (ho : ∀ q, o = .reset q → w.Resetting q) (who' : Closer) (q : AssignPc)
    (h : w.op who' = .reset q) : w.Resetting q := by
  rw [hw] at h
  split at h
  · exact ho q h
  next hne => exact absurd (hlock.only hop h) hne

theorem phase_finish_late {who : Closer} (h : v.phase = .late) : (v.finish who).phase = .late := by
  cases who with
  | thread => exact (if_neg (h ▸ nofun)).trans h
  | main => exact h

/-- The write of a reset that found the pointer null: what it overwrites now is lost. -/
theorem Locked.slotted_writeNull (hlock : v.Locked) (hv : v.Slotted) {who : Closer}
    (hop : v.op who = .reset (.write none)) : ({ v with held := none }.finish who).Slotted where
  held := nofun
  resetting := hlock.resetting hop (op_finish _ who) nofun
  storing who' raw q h := by
    rw [op_finish] at h
    split at h
    · cases h
    next hne =>
      obtain ⟨rfl, hq, hphase, hlive⟩ := hv.storing who' raw q h
      cases who with
      | thread => exact absurd rfl hne
      | main => exact ⟨rfl, hq, hphase, hlive⟩
  prepNull _ := rfl
  owned h hopen := by
    refine (hv.owned h hopen).mono (fun hheld => ?_) (fun who' howns => ⟨who', ?_⟩)
      fun hdown hwas => ⟨hdown, phase_finish_late hwas⟩
    · rcases hv.resetting who _ hop with hnull | ⟨hdown, hlate⟩
      · cases hheld.symm.trans hnull
      · exact Or.inr (Or.inr ⟨hdown, phase_finish_late hlate⟩)
    · have hne : who' ≠ who := fun heq => by simp [heq, hop, ConnOp.Owns] at howns
      rwa [op_finish, if_neg hne]
  mine := hv.mine

/-- The write of a reset that found a connection, which it now has to close. -/
theorem Locked.slotted_write (hlock : v.Locked) (hv : v.Slotted) {who : Closer} {old : Handle}
    (hop : v.op who = .reset (.write (some old))) :
    ({ v with held := none }.setOp who (.reset (.call old))).Slotted := by
  obtain ⟨hheld, hphase⟩ := hv.resetting who _ hop
  exact {
    held := nofun
    resetting := hlock.resetting hop (op_setOp _ who _) fun q hq => by
      cases hq
      exact ⟨rfl, hphase⟩
    storing := by
      intro who' raw q h
      rw [op_setOp] at h
      split at h
      · cases h
      · exact absurd (hv.storing who' raw q h).2.2.1 hphase
    prepNull := fun _ => rfl
    owned := by
      intro h hopen
      refine (hv.owned h hopen).mono (fun heq => Or.inr (Or.inl ⟨who, ?_⟩))
        (fun who' howns => ⟨who', ?_⟩) fun hdown hwas => ⟨hdown, hwas⟩
      · cases hheld.symm.trans heq
        rw [op_setOp, if_pos rfl]
        exact Or.inl rfl
      · have hne : who' ≠ who := fun heq => by simp [heq, hop, ConnOp.Owns] at howns
        rwa [op_setOp, if_neg hne]
    mine := hv.mine }

/-- What is open when the close of a handle is called was open. -/
theorem open_of_closing (v : View) (old : Handle) {h : Handle}
    (hopen : (v.setHandle old { v.handles old with closing := true }).Open h) : v.Open h := by
  obtain ⟨hlt, hclosed⟩ := hopen
  rw [handles_setHandle] at hclosed
  split at hclosed
  next heq => exact ⟨hlt, heq ▸ hclosed⟩
  next => exact ⟨hlt, hclosed⟩

/-- What is open when the close of a handle returns was open, and is another. -/
theorem open_of_closed (v : View) (old : Handle) {h : Handle}
    (hopen : (v.setHandle old { v.handles old with closed := true }).Open h) :
    h ≠ old ∧ v.Open h := by
  obtain ⟨hlt, hclosed⟩ := hopen
  rw [handles_setHandle] at hclosed
  split at hclosed
  · cases hclosed
  next hne => exact ⟨hne, hlt, hclosed⟩

/-- The call of a connection's close. -/
theorem Locked.slotted_call (hlock : v.Locked) (hv : v.Slotted) {who : Closer} {old : Handle}
    (hop : v.op who = .reset (.call old)) :
    ((v.setHandle old { v.handles old with closing := true }).setOp who
      (.reset (.drain old))).Slotted := by
  obtain ⟨hnull, hphase⟩ := hv.resetting who _ hop
  exact {
    held := fun h hheld => by cases hheld.symm.trans hnull
    resetting := hlock.resetting hop (op_setOp _ who _) fun q hq => by
      cases hq
      refine ⟨hnull, hphase, ?_⟩
      change (Function.update v.handles old _ old).closing = true
      rw [Function.update_self]
    storing := by
      intro who' raw q h
      rw [op_setOp] at h
      split at h
      · cases h
      · exact absurd (hv.storing who' raw q h).2.2.1 hphase
    prepNull := hv.prepNull
    owned := by
      intro h hopen
      refine (hv.owned h (open_of_closing v old hopen)).mono Or.inl (fun who' howns => ⟨who', ?_⟩)
        fun hdown hwas => ⟨hdown, hwas⟩
      rw [op_setOp]
      split
      next heq =>
        subst heq
        obtain rfl : old = h := by simpa [hop, ConnOp.Owns] using howns
        exact Or.inr (Or.inl rfl)
      next => exact howns
    mine := fun h hopen => hv.mine h (open_of_closing v old hopen) }

/-- The return of a connection's close. -/
theorem Locked.slotted_drain (hlock : v.Locked) (hv : v.Slotted) {who : Closer} {old : Handle}
    (hop : v.op who = .reset (.drain old)) :
    ((v.setHandle old { v.handles old with closed := true }).finish who).Slotted := by
  obtain ⟨hnull, hphase, -⟩ := hv.resetting who _ hop
  exact {
    held := fun h hheld => by cases hheld.symm.trans hnull
    resetting := hlock.resetting hop (op_finish _ who) nofun
    storing := by
      intro who' raw q h
      rw [op_finish] at h
      split at h
      · cases h
      · exact absurd (hv.storing who' raw q h).2.2.1 hphase
    prepNull := fun _ => hnull
    owned := by
      intro h hopen
      obtain ⟨hne, hwas⟩ := open_of_closed v old hopen
      refine (hv.owned h hwas).mono Or.inl (fun who' howns => ⟨who', ?_⟩)
        fun hdown hwas => ⟨hdown, phase_finish_late hwas⟩
      rw [op_finish]
      split
      next heq =>
        subst heq
        have hold : old = h := by simpa [hop, ConnOp.Owns] using howns
        exact absurd hold.symm hne
      next => exact howns
    mine := fun h hopen => hv.mine h (open_of_closed v old hopen).2 }

/-- Behind the close, a reset that is under way has found nothing. -/
theorem resetting_prep (hv : v.Slotted) (hphase : v.phase = .prep) {who : Closer} {p : AssignPc}
    (hop : v.op who = .reset p) : p = .read ∨ p = .write none :=
  match p, hv.resetting who p hop with
  | .read, _ => Or.inl rfl
  | .write none, _ => Or.inr rfl
  | .write (some _), ⟨_, hne⟩ => absurd hphase hne
  | .call _, ⟨_, hne⟩ => absurd hphase hne
  | .drain _, ⟨_, hne, _⟩ => absurd hphase hne

/-- The open of a connection. -/
theorem slotted_openConn (hv : v.Slotted) (hphase : v.phase = .prep) (hop : v.op .thread = .none)
    (parent : Option Handle) : (v.openConn parent).Slotted := by
  have hnull := hv.prepNull hphase
  have honly : ∀ h, (v.openConn parent).Open h → h = v.next := by
    intro h hopen
    by_contra hne
    have hlt : h < v.next := Nat.lt_of_le_of_ne (Nat.le_of_lt_succ hopen.1) hne
    have hclosed : (Function.update v.handles v.next { parent } h).closed = false := hopen.2
    rw [Function.update_of_ne hne] at hclosed
    exact hv.not_open hphase hop h ⟨hlt, hclosed⟩
  exact {
    held := fun h hheld => by cases hheld.symm.trans hnull
    resetting := by
      intro who q h
      cases who with
      | thread => cases h
      | main =>
        have hwas : v.op .main = .reset q := h
        rcases resetting_prep hv hphase hwas with rfl | rfl
        · trivial
        · exact Or.inl hnull
    storing := by
      intro who raw q h
      cases who with
      | thread =>
        cases h
        refine ⟨rfl, Or.inl rfl, hphase, ⟨Nat.lt_succ_self _, ?_⟩, ?_⟩ <;>
          simp [openConn, setConn, setHandle]
      | main => cases (hv.storing .main raw q h).1
    prepNull := fun _ => hnull
    owned := fun h hopen =>
      honly h hopen ▸ Or.inr (Or.inl ⟨.thread, Or.inr (Or.inr ⟨.read, rfl⟩)⟩)
    mine := fun h hopen => honly h hopen ▸ rfl }

/-- The read of a store. -/
theorem slotted_storeRead (hv : v.Slotted) {raw : Handle} (hop : v.op .thread = .store raw .read) :
    (v.setOp .thread (.store raw (.write v.held))).Slotted := by
  obtain ⟨-, -, hphase, hlive⟩ := hv.storing .thread raw _ hop
  have hnull := hv.prepNull hphase
  exact {
    held := hv.held
    resetting := by
      intro who q h
      cases who with
      | thread => cases h
      | main => exact hv.resetting .main q h
    storing := by
      intro who raw' q h
      cases who with
      | thread =>
        cases h
        exact ⟨rfl, Or.inr (hnull ▸ rfl), hphase, hlive⟩
      | main => exact hv.storing .main raw' q h
    prepNull := hv.prepNull
    owned := by
      intro h hopen
      refine (hv.owned h hopen).mono Or.inl (fun who howns => ⟨who, ?_⟩) fun hdown hwas =>
        ⟨hdown, hwas⟩
      cases who with
      | thread =>
        obtain rfl : raw = h := by simpa [hop, ConnOp.Owns] using howns
        exact Or.inr (Or.inr ⟨_, rfl⟩)
      | main => exact howns
    mine := hv.mine }

/-- The write of a store: a reset by `main` that is under way has found nothing, and will overwrite
what is stored. -/
theorem Locked.slotted_store (hlock : v.Locked) (hv : v.Slotted) {raw : Handle} {p : AssignPc}
    (hop : v.op .thread = .store raw p) :
    ({ v with held := some raw, phase := .late }.setOp .thread .none).Slotted := by
  obtain ⟨-, -, hphase, hlive⟩ := hv.storing .thread raw p hop
  exact {
    held := by
      intro h hheld
      cases hheld
      exact hlive
    resetting := by
      intro who q h
      cases who with
      | thread => cases h
      | main =>
        have hwas : v.op .main = .reset q := h
        rcases resetting_prep hv hphase hwas with rfl | rfl
        · trivial
        · exact Or.inr ⟨hlock.mainDown (hlock.resetInside .main _ h), rfl⟩
    storing := by
      intro who raw' q h
      cases who with
      | thread => cases h
      | main => cases (hv.storing .main raw' q h).1
    prepNull := nofun
    owned := by
      intro h hopen
      obtain ⟨q, hstore⟩ := hv.prep_open hphase hopen
      cases hop.symm.trans hstore
      exact Or.inl rfl
    mine := hv.mine }

end View

/-- **A move keeps the pointer's invariant.** -/
theorem Move.slotted {v v' : View} {a : Action} (hlock : v.Locked) (hv : v.Slotted)
    (h : Move v a v') : v'.Slotted := by
  cases h with
  | stay | install | clearHandler | clearDisc | lock | unlock | succeed | start | connected |
    shutdownEvent | connectedLock | copy | noCopy | fire | noFire | signal => exact hv
  | top hstage hphase hop hstop =>
    refine Slot.Slotted.setPhase hv nofun hop fun hdown _ => ?_
    cases (hlock.stopped hdown).symm.trans hstop
  | giveUp hphase hstage hop => exact Slot.Slotted.setPhase hv nofun hop fun _ _ => rfl
  | resetFlags hstage hphase hop =>
    exact { hv with mine := fun h hopen => absurd hopen (hv.not_open hphase hop h) }
  | shutdown => exact hv.shutdown
  | beginReset who hby hin hop hphase =>
    exact View.slotted_setReset hv trivial fun h howns => by simp [hop, ConnOp.Owns] at howns
  | read who hby hop =>
    refine View.slotted_setReset hv ?_ fun h howns => by simp [hop, ConnOp.Owns] at howns
    cases hheld : v.held with
    | none => exact Or.inl hheld
    | some old => exact ⟨hheld, fun hphase => by cases hheld.symm.trans (hv.prepNull hphase)⟩
  | writeNull who hby hop => exact hlock.slotted_writeNull hv hop
  | write who hby hop => exact hlock.slotted_write hv hop
  | call who hby hop => exact hlock.slotted_call hv hop
  | drain who hby hop => exact hlock.slotted_drain hv hop
  | openConn hstage hphase hop => exact View.slotted_openConn hv hphase hop _
  | storeRead hop => exact View.slotted_storeRead hv hop
  | storeNull hop => exact hlock.slotted_store hv hop
  -- a store finds the pointer null
  | store hop | storeCall hop | storeDrain hop =>
    obtain ⟨-, hp | hp, -⟩ := hv.storing .thread _ _ hop <;> cases hp

/-! ## Runs -/

theorem locked_init : session.init.view.Locked where
  mutex who h := by cases who <;> cases h
  resetInside who p h := by cases who <;> cases h
  stopped := nofun
  mainDown := nofun
  resetPhase := nofun

theorem slotted_init : session.init.view.Slotted where
  held := nofun
  resetting who p h := by cases who <;> cases h
  storing who raw p h := by cases who <;> cases h
  prepNull := nofun
  owned h hopen := absurd hopen.1 (Nat.not_lt_zero h)
  mine h hopen := absurd hopen.1 (Nat.not_lt_zero h)

/-- **The pointer's invariants hold in every run.** -/
theorem reach_slotted {guard : State → Action → Prop} {s : State} (h : session.Reach guard s) :
    s.view.Locked ∧ s.view.Slotted :=
  h.invariant (I := fun s => s.view.Locked ∧ s.view.Slotted) ⟨locked_init, slotted_init⟩
    fun _ _ _ _ _ hstep hs =>
      ⟨(step_move hstep).locked hs.1, (step_move hstep).slotted hs.1 hs.2⟩

end Cfd.Tunnel.Session
