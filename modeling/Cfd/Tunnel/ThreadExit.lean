import Cfd.Tunnel.Attempt
import Cfd.Tunnel.Teardown

/-!
# When the connection thread has returned

The disconnect handler is a closure over a local of the connection thread, and a callback calls a
copy of it outside every lock. What keeps the copy from outliving the thread is the thread's last
`close`: it returns when no callback of the connection runs any more. That needs the connection to
be there to be closed, and `main` closes the same client, at any time.

A connection is taken from the thread in two ways. `main` takes it out of the pointer and closes it,
inside `close_mu_`, so the thread waits for it. Or `main`'s reset reads the pointer before the
thread's store and overwrites it behind that: then nobody has the connection (`View.Stray`), and
`main` goes on to close the registration it was opened under. `RegistrationClose` returns only when
the connections of its registration are closed (`Blocks`), so `main` stays there, inside `close_mu_`,
and the thread does not return either. `Tied` is the invariant that says so.
-/

set_option autoImplicit false

namespace Cfd.Tunnel.Session

open Cfd.Base

/-! ## Connections that nobody has -/

namespace View

variable {v : View}

/-- A connection that is open, not held, and with neither of the threads. -/
def Stray (v : View) (h : Handle) : Prop :=
  v.Open h ∧ v.held ≠ some h ∧ ∀ who, ¬(v.op who).Owns h

/-- What the thread is about to write over is what the pointer holds. -/
def ThreadMatched (v : View) : Prop := ∀ old, v.threadOp = .reset (.write old) → old = v.held

/-- What is stray behind a step of a thread was so before it, unless the thread had it. -/
theorem stray_setOp {who : Closer} {o : ConnOp} {h : Handle} (hs : (v.setOp who o).Stray h)
    (hop : ¬(v.op who).Owns h) : v.Stray h := by
  refine ⟨hs.1, hs.2.1, ?_⟩
  intro who' howns
  by_cases hwho : who' = who
  · subst hwho
    exact hop howns
  · apply hs.2.2 who'
    rwa [op_setOp, if_neg hwho]

theorem stray_finish {who : Closer} {h : Handle} (hs : (v.finish who).Stray h)
    (hop : ¬(v.op who).Owns h) : v.Stray h := by
  refine ⟨hs.1, hs.2.1, ?_⟩
  intro who' howns
  by_cases hwho : who' = who
  · subst hwho
    exact hop howns
  · apply hs.2.2 who'
    rwa [op_finish, if_neg hwho]

end View

/-- **A move keeps the thread's write matched.** -/
theorem Move.threadMatched {v v' : View} {a : Action} (hlock : v.Locked) (hv : v.ThreadMatched)
    (h : Move v a v') : v'.ThreadMatched := by
  cases h with
  | read who hby hop =>
    cases who with
    | thread =>
      intro old heq
      cases heq
      rfl
    | main => exact hv
  | writeNull who hby hop | write who hby hop =>
    cases who with
    | thread =>
      intro old heq
      cases heq
    | main =>
      intro old heq
      have hop' : v.op .thread = .reset (.write old) := heq
      cases hlock.only hop hop'
  | beginReset who | call who | drain who =>
    cases who with
    | thread =>
      intro old heq
      cases heq
    | main => exact hv
  | openConn | storeRead | storeNull | store | storeCall | storeDrain =>
    intro old heq
    cases heq
  | lock who | unlock who => exact hv
  | stay | top | giveUp | install | clearHandler | clearDisc | resetFlags | succeed | start | signal |
    shutdown | connected | shutdownEvent | connectedLock | copy | noCopy | fire | noFire => exact hv

/-- **How a connection comes to be stray**: by a write of `main` that had read a null pointer. -/
theorem Move.stray {v v' : View} {a : Action} {x : Handle} (hslot : v.Slotted)
    (hmatched : v.ThreadMatched) (h : Move v a v') (hs : v'.Stray x) :
    v.Stray x ∨ (∃ ok, a = .main ok) ∧ v.mainOp = .reset (.write none) ∧ v.held = some x := by
  cases h with
  | stay | top | giveUp | install | clearHandler | clearDisc | resetFlags | succeed | start | signal |
    shutdown | connected | shutdownEvent | connectedLock | copy | noCopy | fire | noFire | lock |
    unlock => exact Or.inl hs
  | beginReset who hby hin hop | read who hby hop =>
    exact Or.inl (View.stray_setOp hs (by simp [hop, ConnOp.Owns]))
  | writeNull who hby hop =>
    have hwas := View.stray_finish hs (by
      change ¬(v.op who).Owns x
      simp [hop, ConnOp.Owns])
    by_cases hheld : v.held = some x
    · cases who with
      | thread => cases (hmatched _ hop).trans hheld
      | main =>
        cases a with
        | main ok => exact Or.inr ⟨⟨ok, rfl⟩, hop, hheld⟩
        | thread | router | kj | event | callback | signal => cases hby
    · exact Or.inl ⟨hwas.1, hheld, hwas.2.2⟩
  | @write who _ old hby hop =>
    obtain ⟨hheld, -⟩ := hslot.resetting who _ hop
    have hne : old ≠ x := by
      rintro rfl
      apply hs.2.2 who
      rw [View.op_setOp, if_pos rfl]
      exact Or.inl rfl
    have hwas := View.stray_setOp hs (by
      change ¬(v.op who).Owns x
      simp [hop, ConnOp.Owns])
    refine Or.inl ⟨hwas.1, ?_, hwas.2.2⟩
    rw [hheld]
    exact fun heq => hne (Option.some.inj heq)
  | @call who _ old hby hop =>
    have hne : old ≠ x := by
      rintro rfl
      apply hs.2.2 who
      rw [View.op_setOp, if_pos rfl]
      exact Or.inr (Or.inl rfl)
    have hwas := View.stray_setOp hs (by
      change ¬(v.op who).Owns x
      simp [hop, ConnOp.Owns, hne])
    exact Or.inl ⟨View.open_of_closing v old hwas.1, hwas.2⟩
  | @drain who _ old hby hop =>
    obtain ⟨hne, hopen⟩ := View.open_of_closed v old hs.1
    have hwas := View.stray_finish hs (by
      change ¬(v.op who).Owns x
      simp [hop, ConnOp.Owns, hne.symm])
    exact Or.inl ⟨hopen, hwas.2⟩
  | @openConn _ parent hstage hphase hop =>
    have hne : x ≠ v.next := by
      rintro rfl
      apply hs.2.2 .thread
      exact Or.inr (Or.inr ⟨.read, rfl⟩)
    have hclosed : (Function.update v.handles v.next { parent } x).closed = false := hs.1.2
    rw [Function.update_of_ne hne] at hclosed
    have hlt : x < v.next := Nat.lt_of_le_of_ne (Nat.le_of_lt_succ hs.1.1) hne
    exact absurd ⟨hlt, hclosed⟩ (hslot.not_open hphase hop x)
  | @storeRead _ raw hop =>
    have hne : raw ≠ x := by
      rintro rfl
      apply hs.2.2 .thread
      exact Or.inr (Or.inr ⟨_, rfl⟩)
    refine Or.inl (View.stray_setOp hs ?_)
    change ¬ConnOp.Owns v.threadOp x
    simp [hop, ConnOp.Owns, hne]
  | @storeNull _ raw hop =>
    obtain ⟨-, -, hphase, -⟩ := hslot.storing .thread raw _ hop
    obtain ⟨p, hstore⟩ := hslot.prep_open hphase hs.1
    cases hop.symm.trans hstore
    exact absurd rfl hs.2.1
  -- a store finds the pointer null
  | store hop | storeCall hop | storeDrain hop =>
    obtain ⟨-, hp | hp, -⟩ := hslot.storing .thread _ _ hop <;> cases hp

/-- Only an open makes a connection open, and what was opened keeps its parent. -/
theorem Move.open_of {v v' : View} {a : Action} {x : Handle} (h : Move v a v') (hlt : x < v.next)
    (hopen : v'.Open x) : v.Open x ∧ (v'.handles x).parent = (v.handles x).parent := by
  cases h with
  | @call _ _ old | @storeCall _ _ old =>
    refine ⟨View.open_of_closing v old hopen, ?_⟩
    change ((v.setHandle old _).handles x).parent = _
    rw [View.handles_setHandle]
    split
    next heq => rw [heq]
    next => rfl
  | @drain _ _ old | @storeDrain _ _ old =>
    refine ⟨(View.open_of_closed v old hopen).2, ?_⟩
    change ((v.setHandle old _).handles x).parent = _
    rw [View.handles_setHandle, if_neg (View.open_of_closed v old hopen).1]
  | @openConn _ parent =>
    have hne : x ≠ v.next := Nat.ne_of_lt hlt
    have hsame : (v.openConn parent).handles x = v.handles x := Function.update_of_ne hne ..
    refine ⟨⟨hlt, ?_⟩, by rw [hsame]⟩
    rw [← hsame]
    exact hopen.2
  | stay | top | giveUp | install | clearHandler | clearDisc | resetFlags | succeed | start | signal |
    shutdown | connected | shutdownEvent | connectedLock | copy | noCopy | fire | noFire | lock |
    unlock | beginReset | read | writeNull | write | storeRead | storeNull | store =>
    exact ⟨hopen, rfl⟩

/-! ## The registration that `main` closes -/

/-- The registration whose close returns by an action. -/
def State.registrationReturn (s : State) : Action → Option Handle
  | .thread _ =>
    match s.thread with
    | .close _ (.reset .registration (.drain r)) => some r
    | .connect (.store .registration _ (.drain r)) => some r
    | _ => none
  | .main _ =>
    match s.main with
    | .closing (.reset .registration (.drain r)) => some r
    | _ => none
  | _ => none

/-- `RegistrationClose` returns when the connections opened under it are closed. -/
def Blocks (s : State) (a : Action) : Prop :=
  ∀ r ∈ s.registrationReturn a, ∀ h < s.shared.next .connection,
    (s.shared.handles .connection h).parent = some r →
      (s.shared.handles .connection h).closed = true

instance (s : State) (a : Action) : Decidable (Blocks s a) :=
  inferInstanceAs (Decidable (∀ r ∈ s.registrationReturn a, ∀ h < s.shared.next .connection,
    (s.shared.handles .connection h).parent = some r →
      (s.shared.handles .connection h).closed = true))

/-- Before the write of `registration_` in `main`'s `close`. -/
def MainPc.early : MainPc → Bool
  | .closing (.reset .registration (.call _)) | .closing (.reset .registration (.drain _)) |
    .closing .unlock | .joining | .done => false
  | _ => true

/-- `main` is behind the reset of the connection, and closes this registration next. -/
def MainPc.Closes (m : MainPc) (r : Handle) : Prop :=
  match m with
  | .closing (.reset .configuration _) | .closing (.reset .registration .read) => True
  | .closing (.reset .registration (.write old)) => old = some r
  | .closing (.reset .registration (.call x)) | .closing (.reset .registration (.drain x)) => x = r
  | _ => False

theorem MainPc.Closes.inside {m : MainPc} {r : Handle} (h : m.Closes r) : m.inside = true := by
  cases m with
  | closing p =>
    cases p with
    | lock => exact h.elim
    | test | shutdown | reset | unlock => rfl
  | waiting | pumping | stopping | storeStop | joining | done => exact h.elim

/-- Behind the reset of the connection in the thread's `close`, and behind the last of them. -/
def ThreadPc.emptied : ThreadPc → Bool
  | .close _ (.reset .configuration _) | .close _ (.reset .registration _) | .close _ .unlock |
    .done => true
  | _ => false

/-- What keeps the thread from returning before its connection is closed. -/
structure Tied (s : Shared) (t : ThreadPc) (m : MainPc) : Prop where
  fetched : m.early = true → ∀ parent, t = .connect (.openCall .connection parent) →
    parent = s.held .registration
  parent : ∀ h, (s.view t m).Open h → ∃ r, (s.handles .connection h).parent = some r ∧
    (m.early = true → s.held .registration = some r)
  stray : ∀ h r, (s.view t m).Stray h → (s.handles .connection h).parent = some r → m.Closes r
  emptied : t.emptied = true → ∀ h, ¬(s.view t m).Open h

/-! ## The steps of the thread -/

variable {s s' : Shared} {t t' : ThreadPc} {m m' : MainPc} {ok : Bool}

/-- What the thread has emptied it has emptied before, or just now. -/
theorem threadStep_emptied (h : threadStep s ok t = some (s', t')) (ht : t'.emptied = true) :
    t.emptied = true ∨ ∃ site p, t = .close site (.reset .connection p) ∧
      assignStep s .connection none p = some (s', none) ∧
      t' = .close site (.reset .configuration .read) := by
  cases t with
  | close site p =>
    rw [threadStep_close] at h
    obtain ⟨⟨s'', q⟩, hclose, heq⟩ := Option.map_eq_some_iff.mp h
    cases heq
    cases p with
    | lock =>
      simp only [closeStep] at hclose
      split at hclose <;> cases hclose
      cases ht
    | test =>
      cases hclose
      revert ht
      split
      · intro ht
        cases ht
      · intro ht
        cases ht
    | shutdown =>
      cases hclose
      cases ht
    | reset kind p =>
      obtain ⟨q₀, hassign, rfl⟩ := closeStep_reset hclose
      cases kind with
      | connection =>
        cases q₀ with
        | none => exact Or.inr ⟨site, p, rfl, hassign, rfl⟩
        | some p' => cases ht
      | configuration | registration => exact Or.inl rfl
    | unlock => exact Or.inl rfl
  | connect p =>
    rw [threadStep_connect] at h
    obtain ⟨⟨s'', q⟩, hconnect, heq⟩ := Option.map_eq_some_iff.mp h
    cases heq
    rcases q with p' | _ | _ <;> cases ht
  | check | recheck =>
    cases h
    revert ht
    split
    · intro ht
      cases ht
    · intro ht
      cases ht
  | await =>
    simp only [threadStep] at h
    split at h <;> cases h <;> cases ht
  | wait =>
    simp only [threadStep] at h
    split at h <;> cases h
    cases ht
  | install | clearDisc | sleep | post | advertise | clearHandler =>
    cases h
    cases ht
  | done => cases h

/-- The parent that the thread opens a connection under is what it has read. -/
theorem threadStep_toOpen {parent : Option Handle}
    (h : threadStep s ok t = some (s', .connect (.openCall .connection parent))) :
    s' = s ∧ parent = s.held .registration := by
  rcases threadStep_cases h with ⟨site, p, q, rfl, -, heq⟩ | ⟨p, q, rfl, hstep, heq⟩ |
    ⟨-, -, -, hnext⟩
  · cases q <;> cases site <;> cases heq
  · rcases q with p' | _ | _ <;> cases heq
    cases p with
    | openHandle kind =>
      cases hstep
      exact ⟨rfl, rfl⟩
    | apiInit =>
      simp only [connectStep] at hstep
      split at hstep
      · cases hstep
      · split at hstep <;> cases hstep
    | openCall kind parent' =>
      simp only [connectStep] at hstep
      split at hstep <;> cases hstep
    | store kind raw p₀ =>
      obtain ⟨q₀, -, hpc⟩ := connectStep_store hstep
      cases q₀ with
      | none => cases kind <;> cases hpc
      | some p₁ => cases hpc
    | loadCredential | resolve => cases ok <;> cases hstep
    | startCall x config => cases connectStep_startCall hstep
    | resetFlags | setParam | start | startConfig | handshake => cases hstep
  · exact absurd rfl (hnext _)

/-- Where `close` writes `registration_`. -/
theorem closeStep_registration {who : Closer} {p : ClosePc} {q : Option ClosePc}
    (h : closeStep who s p = some (s', q)) : s'.held .registration = s.held .registration ∨
      ∃ old, p = .reset .registration (.write old) := by
  rcases closeStep_held h with ⟨kind, old, rfl, hheld⟩ | hheld
  · cases kind with
    | registration => exact Or.inr ⟨old, rfl⟩
    | configuration | connection =>
      refine Or.inl ?_
      rw [hheld, Function.update_of_ne (by decide)]
  · exact Or.inl (by rw [hheld])

/-- The thread writes `registration_` where no connection is open. -/
theorem threadStep_registration (h : threadStep s ok t = some (s', t')) :
    s'.held .registration = s.held .registration ∨ t.emptied = true ∨
      t.phase = .prep ∧ t.connOp = .none := by
  rcases threadStep_cases h with ⟨site, p, q, rfl, hstep, -⟩ | ⟨p, q, rfl, hstep, -⟩ | ⟨hsame, -⟩
  · rcases closeStep_registration hstep with hheld | ⟨old, rfl⟩
    · exact Or.inl hheld
    · exact Or.inr (Or.inl rfl)
  · rcases connectStep_held hstep with ⟨kind, raw, old, rfl, hheld⟩ | hheld
    · cases kind with
      | registration => exact Or.inr (Or.inr ⟨rfl, rfl⟩)
      | configuration | connection =>
        refine Or.inl ?_
        rw [hheld, Function.update_of_ne (by decide)]
    · exact Or.inl (by rw [hheld])
  · exact Or.inl (by rw [hsame.held])

theorem next_openHandle_ne (s : Shared) {kind k : HandleKind} (hk : k ≠ kind)
    (parent : Option Handle) : (s.openHandle kind parent).next k = s.next k :=
  Function.update_of_ne hk ..

/-- The thread opens connections in one place. -/
theorem threadStep_opens (h : threadStep s ok t = some (s', t')) :
    s'.next .connection = s.next .connection ∨
      ∃ r, t = .connect (.openCall .connection (some r)) ∧ s' = s.openHandle .connection (some r) := by
  rcases threadStep_cases h with ⟨site, p, q, rfl, hstep, -⟩ | ⟨p, q, rfl, hstep, -⟩ | ⟨hsame, -⟩
  · exact Or.inl (by rw [(closeStep_rest hstep).2])
  · rcases connectStep_cases hstep with ⟨kind, raw, p₀, q₀, rfl, hassign, -⟩ |
      ⟨kind, parent, rfl, rfl, -⟩ | ⟨-, -, hsame⟩
    · exact Or.inl (by rw [(assignStep_rest hassign).2])
    · cases kind with
      | connection =>
        cases parent with
        | some r => exact Or.inr ⟨r, rfl, rfl⟩
        | none =>
          simp only [connectStep, Option.isSome_none, reduceCtorEq, decide_false, Bool.or_self,
            Bool.and_false, Bool.false_eq_true, if_false, Option.some_inj, Prod.mk.injEq] at hstep
          exact Or.inl (by rw [← hstep.1])
      | registration | configuration => exact Or.inl (next_openHandle_ne s (by decide) parent)
    · exact Or.inl (by rw [hsame.next])
  · exact Or.inl (by rw [hsame.next])

/-- Outside `close`, `main` has no connection. -/
theorem View.Locked.main_owns {v : View} (hlock : v.Locked) (hslot : v.Slotted)
    (hin : v.inside .main = false) (x : Handle) : ¬(v.op .main).Owns x := by
  have hreset : ∀ p, v.op .main ≠ .reset p := by
    intro p hp
    cases hin.symm.trans (hlock.resetInside .main p hp)
  rintro (hp | hp | ⟨p, hp⟩)
  · exact hreset _ hp
  · exact hreset _ hp
  · cases (hslot.storing .main x p hp).1

/-- **A step of the thread.** -/
theorem Tied.thread (hs : Tied s t m) (hslot : (s.view t m).Slotted)
    (hmatched : (s.view t m).ThreadMatched) (hlock' : (s'.view t' m).Locked)
    (hslot' : (s'.view t' m).Slotted) (h : threadStep s ok t = some (s', t')) : Tied s' t' m := by
  have hmove := threadStep_move h m
  have hparent : ∀ x, (s'.view t' m).Open x → ∃ r, (s'.handles .connection x).parent = some r ∧
      (m.early = true → s'.held .registration = some r) := by
    intro x hopen
    rcases threadStep_opens h with hnext | ⟨r, rfl, rfl⟩
    · have hlt : x < s.next .connection := hnext ▸ hopen.1
      obtain ⟨hwas, hsame⟩ := hmove.open_of hlt hopen
      obtain ⟨r, hr, hreg⟩ := hs.parent x hwas
      refine ⟨r, hsame.trans hr, fun hm => ?_⟩
      rcases threadStep_registration h with hheld | hemptied | ⟨hphase, hop⟩
      · rw [hheld]
        exact hreg hm
      · exact absurd hwas (hs.emptied hemptied x)
      · exact absurd hwas (hslot.not_open hphase hop x)
    · by_cases hnew : x = s.next .connection
      · subst hnew
        refine ⟨r, ?_, fun hm => (hs.fetched hm _ rfl).symm⟩
        change (Function.update (s.handles .connection) _ _ _).parent = some r
        rw [Function.update_self]
      · have hlt : x < s.next .connection :=
          Nat.lt_of_le_of_ne (Nat.le_of_lt_succ hopen.1) hnew
        exact absurd (hmove.open_of hlt hopen).1 (hslot.not_open rfl rfl x)
  have hstray : ∀ x r, (s'.view t' m).Stray x → (s'.handles .connection x).parent = some r →
      m.Closes r := by
    intro x r hx hr
    rcases hmove.stray hslot hmatched hx with hwas | ⟨⟨_, hact⟩, -⟩
    · have hsame := (hmove.open_of hwas.1.1 hx.1).2
      exact hs.stray x r hwas (hsame.symm.trans hr)
    · cases hact
  refine ⟨fun hm parent heq => ?_, hparent, hstray, fun ht x hopen => ?_⟩
  · subst heq
    obtain ⟨rfl, rfl⟩ := threadStep_toOpen h
    rfl
  · rcases threadStep_emptied h ht with hemptied | ⟨site, p, rfl, hassign, rfl⟩
    · rcases threadStep_opens h with hnext | ⟨r, rfl, -⟩
      · have hlt : x < s.next .connection := hnext ▸ hopen.1
        exact hs.emptied hemptied x (hmove.open_of hlt hopen).1
      · cases hemptied
    · -- `main` is not inside its `close`, so what is open is held, and nothing is
      have hmain : m.inside = false :=
        View.Locked.excludes (s := ⟨s', _, .idle, .idle, m⟩) hlock' rfl
      have hheld : s'.held .connection = none := by
        rcases assignStep_cases hassign with ⟨-, -, heq⟩ | ⟨old, rfl, rfl, -⟩ | ⟨old, -, heq, -⟩ |
          ⟨old, rfl, -, rfl, -⟩
        · cases heq
        · change Function.update s.held .connection none .connection = none
          rw [Function.update_self]
        · cases heq
        · exact (hslot.resetting .thread (.drain old) rfl).1
      have hx : (s'.view (.close site (.reset .configuration .read)) m).Stray x := by
        refine ⟨hopen, ?_, ?_⟩
        · intro heq
          cases hheld.symm.trans heq
        · intro who
          cases who with
          | thread => simp [Slot.op, Closer.pick, Shared.view, ThreadPc.connOp, ClosePc.connOp,
              ConnOp.Owns]
          | main => exact hlock'.main_owns hslot' hmain x
      obtain ⟨r, hr, -⟩ := hparent x hopen
      cases hmain.symm.trans (hstray x r hx hr).inside

/-! ## The steps of `main` -/

/-- Outside `close`, `main` has no connection and closes no registration. -/
theorem MainPc.outside (h : ∀ p, m ≠ .closing p) : m.connOp = .none ∧ ∀ r, ¬m.Closes r := by
  cases m with
  | closing p => exact absurd rfl (h p)
  | waiting | pumping | stopping | storeStop | joining | done => exact ⟨rfl, fun _ => id⟩

/-- Where `main` has written `registration_`, it stays so. -/
theorem mainStep_early {s : State} (hm : ∀ p, s.main ≠ .closing p)
    (h : mainStep s ok = some (s', m')) (hearly : m'.early = true) : s.main.early = true := by
  obtain ⟨sh, t, router, kj, m⟩ := s
  cases m with
  | closing p => exact absurd rfl (hm p)
  | waiting | pumping | stopping | storeStop => rfl
  | joining =>
    simp only [mainStep] at h
    split at h <;> cases h
    cases hearly
  | done => cases h

/-- Where `main` has not written `registration_` behind a step of `close`, the step has not. -/
theorem closeStep_early {p : ClosePc} {q : Option ClosePc} (h : closeStep .main s p = some (s', q))
    (hearly : (q.elim .joining .closing : MainPc).early = true) :
    (MainPc.closing p).early = true ∧ s'.held .registration = s.held .registration := by
  have hheld := closeStep_registration h
  cases p with
  | unlock =>
    cases h
    cases hearly
  | lock | test | shutdown => exact ⟨rfl, hheld.resolve_right (by simp)⟩
  | reset kind p₀ =>
    cases kind with
    | configuration | connection => exact ⟨rfl, hheld.resolve_right (by simp)⟩
    | registration =>
      obtain ⟨q₀, hassign, rfl⟩ := closeStep_reset h
      rcases assignStep_cases hassign with ⟨rfl, rfl, rfl⟩ | ⟨old, rfl, rfl, rfl⟩ |
        ⟨old, rfl, rfl, rfl⟩ | ⟨old, rfl, rfl, rfl, -⟩
      · exact ⟨rfl, rfl⟩
      · cases old <;> cases hearly
      · cases hearly
      · cases hearly

/-- `main` comes to close the registration, unless its close returns. -/
theorem closeStep_closes {p : ClosePc} {q : Option ClosePc} {r : Handle}
    (h : closeStep .main s p = some (s', q)) (hcloses : (MainPc.closing p).Closes r)
    (hreg : (MainPc.closing p).early = true → s.held .registration = some r)
    (hdrain : p ≠ .reset .registration (.drain r)) :
    (q.elim .joining .closing : MainPc).Closes r := by
  cases p with
  | lock | test | shutdown | unlock => exact hcloses.elim
  | reset kind p₀ =>
    obtain ⟨q₀, hassign, rfl⟩ := closeStep_reset h
    cases kind with
    | connection => exact hcloses.elim
    | configuration =>
      cases q₀ with
      | none => trivial
      | some p' => trivial
    | registration =>
      rcases assignStep_cases hassign with ⟨rfl, rfl, rfl⟩ | ⟨old, rfl, rfl, rfl⟩ |
        ⟨old, rfl, rfl, rfl⟩ | ⟨old, rfl, rfl, rfl, -⟩
      · exact hreg rfl
      · obtain rfl : old = some r := hcloses
        exact rfl
      · exact hcloses
      · obtain rfl : old = r := hcloses
        exact absurd rfl hdrain

/-- **A step of `main`.** -/
theorem Tied.main {s : State} {s' : Shared} (hs : Tied s.shared s.thread s.main)
    (hslot : s.view.Slotted) (hmatched : s.view.ThreadMatched) (hblocks : Blocks s (.main ok))
    (h : mainStep s ok = some (s', m')) : Tied s' s.thread m' := by
  have hmove := mainStep_move h
  have hnext : s'.next = s.shared.next := by
    rcases mainStep_cases h with ⟨p, q, -, hclose, -⟩ | ⟨hsame, -⟩
    · exact (closeStep_rest hclose).2
    · exact hsame.next
  have hopened : ∀ x, (s'.view s.thread m').Open x → s.view.Open x ∧
      (s'.handles .connection x).parent = (s.shared.handles .connection x).parent := by
    intro x hopen
    have hlt : x < s.shared.next .connection := hnext ▸ hopen.1
    exact hmove.open_of hlt hopen
  have hearly : m'.early = true →
      s.main.early = true ∧ s'.held .registration = s.shared.held .registration := by
    intro hm
    rcases mainStep_cases h with ⟨p, q, hp, hclose, rfl⟩ | ⟨hsame, houtside, -⟩
    · rw [hp]
      exact closeStep_early hclose hm
    · exact ⟨mainStep_early houtside h hm, by rw [hsame.held]⟩
  refine ⟨fun hm parent heq => ?_, fun x hopen => ?_, fun x r hx hr => ?_, fun ht x hopen => ?_⟩
  · obtain ⟨hwas, hheld⟩ := hearly hm
    rw [hheld]
    exact hs.fetched hwas parent heq
  · obtain ⟨hwas, hsame⟩ := hopened x hopen
    obtain ⟨r, hr, hreg⟩ := hs.parent x hwas
    refine ⟨r, hsame.trans hr, fun hm => ?_⟩
    obtain ⟨hwas', hheld⟩ := hearly hm
    rw [hheld]
    exact hreg hwas'
  · obtain ⟨hwas, hsame⟩ := hopened x hx.1
    have hr' := hsame.symm.trans hr
    rcases hmove.stray hslot hmatched hx with hstray | ⟨-, hwrite, -⟩
    · have hcloses := hs.stray x r hstray hr'
      rcases mainStep_cases h with ⟨p, q, hp, hclose, rfl⟩ | ⟨-, houtside, -⟩
      · obtain ⟨r', hr₁, hreg⟩ := hs.parent x hwas
        obtain rfl : r' = r := Option.some.inj (hr₁.symm.trans hr')
        rw [hp] at hcloses hreg
        apply closeStep_closes hclose hcloses hreg
        -- the close of the registration does not return while its connection is open
        rintro rfl
        have hreturn : s.registrationReturn (.main ok) = some r' := by
          simp only [State.registrationReturn, hp]
        cases hwas.2.symm.trans (hblocks r' hreturn x hwas.1 hr')
      · exact absurd hcloses ((MainPc.outside houtside).2 r)
    · rcases mainStep_cases h with ⟨p, q, hp, hclose, rfl⟩ | ⟨-, houtside, -⟩
      · have hop : (MainPc.closing p).connOp = .reset (.write none) := hp ▸ hwrite
        cases p with
        | reset kind p₀ =>
          cases kind with
          | connection =>
            cases hop
            cases hclose
            trivial
          | registration | configuration => cases hop
        | lock | test | shutdown | unlock => cases hop
      · cases (MainPc.outside houtside).1.symm.trans hwrite
  · exact hs.emptied ht x (hopened x hopen).1

/-- A step of anybody else. -/
theorem Tied.same (hs : Tied s t m) (hsame : SameHandles s s') : Tied s' t m := by
  have hopened : ∀ x, (s'.view t m).Open x → (s.view t m).Open x := by
    rintro x ⟨hlt, hclosed⟩
    refine ⟨?_, ?_⟩
    · change x < s.next .connection
      rw [← hsame.next]
      exact hlt
    · change (s.handles .connection x).closed = false
      rw [← hsame.handles]
      exact hclosed
  refine ⟨fun hm parent heq => ?_, fun x hopen => ?_, fun x r hx hr => ?_, fun ht x hopen => ?_⟩
  · rw [hsame.held]
    exact hs.fetched hm parent heq
  · rw [hsame.handles, hsame.held]
    exact hs.parent x (hopened x hopen)
  · rw [hsame.handles] at hr
    refine hs.stray x r ⟨hopened x hx.1, ?_, hx.2.2⟩ hr
    change s.held .connection ≠ some x
    rw [← hsame.held]
    exact hx.2.1
  · exact hs.emptied ht x (hopened x hopen)

/-! ## Runs -/

/-- What holds of a session while `RegistrationClose` blocks. -/
theorem reach_tied {s : State} (h : session.Reach Blocks s) :
    s.view.ThreadMatched ∧ Tied s.shared s.thread s.main := by
  have hinit : session.init.view.ThreadMatched ∧
      Tied session.init.shared session.init.thread session.init.main := by
    refine ⟨nofun, nofun, ?_, ?_, nofun⟩
    · intro x hopen
      exact absurd hopen.1 (Nat.not_lt_zero x)
    · intro x r hx
      exact absurd hx.1.1 (Nat.not_lt_zero x)
  refine h.invariant (I := fun s => s.view.ThreadMatched ∧ Tied s.shared s.thread s.main) hinit ?_
  intro s a s' hr hblocks hstep hs
  obtain ⟨hmatched, hs⟩ := hs
  obtain ⟨hlock, hslot⟩ := reach_slotted hr
  obtain ⟨hlock', hslot'⟩ := reach_slotted (.step hr hblocks hstep)
  refine ⟨(step_move hstep).threadMatched hlock hmatched, ?_⟩
  cases a with
  | thread ok =>
    obtain ⟨⟨sh, t'⟩, hthread, rfl⟩ := Option.map_eq_some_iff.mp hstep
    exact hs.thread hslot hmatched hlock' hslot' hthread
  | main ok =>
    obtain ⟨⟨sh, m'⟩, hmain, rfl⟩ := Option.map_eq_some_iff.mp hstep
    exact hs.main hslot hmatched hblocks hmain
  | router =>
    obtain ⟨p, -, rfl⟩ := Option.map_eq_some_iff.mp hstep
    exact hs
  | kj ok =>
    obtain ⟨⟨sh, k'⟩, hkj, rfl⟩ := Option.map_eq_some_iff.mp hstep
    exact hs.same (kjStep_same hkj)
  | event x e =>
    obtain ⟨sh, hdeliver, rfl⟩ := Option.map_eq_some_iff.mp hstep
    exact hs.same (deliver_same hdeliver).1
  | callback x =>
    obtain ⟨sh, hcallback, rfl⟩ := Option.map_eq_some_iff.mp hstep
    exact hs.same (callbackStep_same hcallback).1
  | signal =>
    cases hstep
    exact hs.same ⟨rfl, rfl, rfl⟩

/-! ## The closure -/

/-- Before the handler is installed and behind its removal it is null. -/
theorem reach_handler {guard : State → Action → Prop} {s : State} (h : session.Reach guard s)
    (hout : s.view.stage = .out) : s.shared.disconnectHandler = false := by
  have hkeeps : ∀ {v v' : View} {a : Action}, Move v a v' →
      (v.stage = .out → v.disconnectHandler = false) →
      v'.stage = .out → v'.disconnectHandler = false := by
    intro v v' a hmove hv hout
    cases hmove with
    | clearHandler => rfl
    | top | giveUp | install | clearDisc | resetFlags | openConn | succeed => cases hout
    | _ => exact hv hout
  exact h.invariant (I := fun s => s.view.stage = .out → s.view.disconnectHandler = false)
    (fun _ => rfl) (fun _ _ _ _ _ hstep hs => hkeeps (step_move hstep) hs) hout

/-- With no callback running, and no attempt begun, nothing is invoked. -/
theorem Move.invoked {v v' : View} {a : Action} (h : Move v a v') (hout : v.stage = .out)
    (hidle : ∀ x, (v.conn x).callback = none) : v'.invoked = v.invoked := by
  cases h with
  | resetFlags hstage => cases hout.symm.trans hstage
  | @fire x hpc => cases (hidle x).symm.trans hpc
  | _ => rfl

/-- A thread that has returned takes no step. -/
theorem step_done {s s' : State} {a : Action} (h : s.step a = some s') (hdone : s.thread = .done) :
    s'.thread = .done := by
  cases a with
  | thread ok =>
    obtain ⟨r, hthread, -⟩ := Option.map_eq_some_iff.mp h
    rw [hdone] at hthread
    cases hthread
  | main | router | kj | event | callback =>
    obtain ⟨r, -, rfl⟩ := Option.map_eq_some_iff.mp h
    exact hdone
  | signal =>
    cases h
    exact hdone

/-- When the thread has returned, no connection is open, and so no callback runs. -/
theorem idle_of_done {s : State} (h : session.Reach Blocks s) (hdone : s.thread = .done) (x : Handle) :
    (s.shared.conn x).callback = none := by
  by_contra hne
  have hopen : s.view.Open x := (reach_flagged h).running x hne
  exact (reach_tied h).2.emptied (hdone ▸ rfl) x hopen

/-- **The disconnect closure does not outlive its thread.** When the connection thread has returned,
the client has no handler, no callback runs that could have a copy of it, and it is not called in
any continuation of the run. -/
theorem closure_gone {s : State} (h : session.Reach Blocks s) (hdone : s.thread = .done) :
    s.shared.disconnectHandler = false ∧ (∀ x, (s.shared.conn x).callback = none) ∧
      ∀ s', (session.after s).Reach Blocks s' → s'.shared.invoked = s.shared.invoked := by
  have hout : ∀ {s' : State}, s'.thread = .done → s'.view.stage = .out := by
    intro s' hs'
    change s'.thread.stage = .out
    rw [hs']
    rfl
  refine ⟨reach_handler h (hout hdone), idle_of_done h hdone, ?_⟩
  intro s' hs'
  have hlater : session.Reach Blocks s' ∧ s'.thread = .done ∧
      s'.shared.invoked = s.shared.invoked := by
    induction hs' with
    | init => exact ⟨h, hdone, rfl⟩
    | @step s₁ s₂ a _ hblocks hstep ih =>
      obtain ⟨hreach, hdone₁, hinvoked⟩ := ih
      refine ⟨.step hreach hblocks hstep, ?_, ?_⟩
      · exact step_done hstep hdone₁
      · have hsame := (step_move hstep).invoked (hout hdone₁) (idle_of_done hreach hdone₁)
        exact Eq.trans hsame hinvoked
  exact hlater.2.2

/-- A callback has copied the handler and pauses; `main` closes the connection and waits for it; the
thread removes the handler and waits for `main`. -/
def pausedSteps : List Action :=
  upSteps ++ [.event 0 .shutdownInitiatedByPeer, .callback 0] ++ List.replicate 7 (.main false) ++
    threadSteps 4 ++ [.callback 0] ++ List.replicate 11 (.main false) ++ threadSteps 9

theorem closure_gone_paused : ∃ s, session.Reach Blocks s ∧ s.thread = .done ∧
    s.shared.invoked = 1 ∧ s.shared.disconnectHandler = false ∧
    (∀ x, (s.shared.conn x).callback = none) ∧
    ∀ s', (session.after s).Reach Blocks s' → s'.shared.invoked = 1 := by
  have hrun : (session.exec Blocks session.init pausedSteps).any (fun s =>
      decide (s.thread = .done ∧ s.shared.invoked = 1)) = true := by decide
  obtain ⟨s, hs, hdone, hinvoked⟩ := Machine.exists_reach_of_exec hrun
  obtain ⟨hhandler, hidle, hlater⟩ := closure_gone hs hdone
  exact ⟨s, hs, hdone, hinvoked, hhandler, hidle, fun s' hs' => (hlater s' hs').trans hinvoked⟩

/-- `main`'s reset of the pointer is torn by the store of a connection, which comes up and is shut
down; a callback of it pauses with a copy. -/
def tornSteps : List Action :=
  threadSteps 26 ++ List.replicate 5 (.main false) ++ threadSteps 6 ++
    [.event 0 .connected, .callback 0] ++ threadSteps 1 ++
    [.main false, .event 0 .shutdownInitiatedByPeer, .callback 0] ++ List.replicate 7 (.main false)

/-- The close of the registration waits for a connection that nobody closes. -/
theorem torn_waits : ∃ s, session.Reach Blocks s ∧
    s.main = .closing (.reset .registration (.drain 0)) ∧ ¬Blocks s (.main false) := by
  have hrun : (session.exec Blocks session.init tornSteps).any (fun s =>
      decide (s.main = .closing (.reset .registration (.drain 0)) ∧
        ¬Blocks s (.main false))) = true := by decide
  exact Machine.exists_reach_of_exec hrun

/-- **That the close of a registration waits is needed**: where it does not, the thread returns and
leaves a callback with a copy of its closure. -/
theorem closure_outlives : ∃ s, session.Reachable s ∧ s.thread = .done ∧
    (s.shared.conn 0).callback = some (.fireCall true) := by
  have hrun : (session.exec (fun _ _ => True) session.init (tornSteps ++
      List.replicate 2 (.main false) ++ threadSteps 1 ++ List.replicate 3 (.kj true) ++
      threadSteps 22)).any (fun s => decide (s.thread = .done ∧
        (s.shared.conn 0).callback = some (.fireCall true))) = true := by decide
  exact Machine.exists_reach_of_exec hrun

end Cfd.Tunnel.Session
