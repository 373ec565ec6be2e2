import Cfd.Tunnel.Handles

/-!
# `close` in the midst of `connect`

`close` resets the connection, then the configuration, then the registration, which closes the
children of a registration before it, as long as no child appears behind its back. The connection
thread's own `close` has that: nobody else opens handles. `main`'s has not: `close_mu_` keeps `close`
from `close`, and `connect` does not take it. `State.apart` are the steps that a run has to leave out
to be safe, and `Ordered` is what holds of the runs that do.

Each of the five conditions is about a step that goes wrong, or from which the run can go wrong
without any further fault: a child that is stored behind the reset that should have closed it, or is
open and not yet stored when the registration is closed; a configuration that is taken away from a
connection that is about to be started with it, closed before it is, or gone when the connection is
opened.
-/

set_option autoImplicit false

namespace Cfd.Tunnel.Session

open Cfd.Base

/-! ## What is to hold -/

/-- The handle that the thread is about to close. -/
def ThreadPc.closeCall : ThreadPc → List (HandleKind × Handle)
  | .close _ p => p.closeCall
  | .connect p => p.closeCall
  | _ => []

/-- The handle that `main` is about to close. -/
def MainPc.closeCall : MainPc → List (HandleKind × Handle)
  | .closing p => p.closeCall
  | _ => []

/-- The handle that an action closes. -/
def State.closeCall (s : State) : Action → List (HandleKind × Handle)
  | .thread _ => s.thread.closeCall
  | .main _ => s.main.closeCall
  | _ => []

/-- The configuration that an action passes to `ConnectionStart`, when it calls that. -/
def State.startsWith (s : State) : Action → Option (Option Handle)
  | .thread _ =>
    match s.thread with
    | .connect (.startCall _ config) => some config
    | _ => none
  | _ => none

/-- If the action closes a registration, all connections and configurations opened under it have
been closed. -/
def State.ChildrenClosed (s : State) (a : Action) : Prop :=
  ∀ r, (.registration, r) ∈ s.closeCall a → ∀ kind h, kind ≠ .registration →
    h < s.shared.next kind → (s.shared.handles kind h).parent = some r →
      (s.shared.handles kind h).closed = true

/-- If the action calls `ConnectionStart`, the configuration is one whose close has not been
called. -/
def State.StartsConfigured (s : State) (a : Action) : Prop :=
  ∀ config, s.startsWith a = some config → ∃ c, config = some c ∧
    c < s.shared.next .configuration ∧ (s.shared.handles .configuration c).closing = false

/-! ## What keeps `main` apart from the thread -/

/-- Before the call that closes the old handle, as far as there is or can be one. -/
def AssignPc.toCall : AssignPc → Bool
  | .read | .write (some _) | .call _ => true
  | .write none | .drain _ => false

/-- Behind the read of this pointer, with the call of `RegistrationClose` still to come. -/
def ClosePc.past : ClosePc → HandleKind → Bool
  | .reset .registration p, k => k ≠ .registration && p.toCall
  | .reset kind p, k => k.closeRank < kind.closeRank || (k = kind && p ≠ .read)
  | _, _ => false

def MainPc.past : MainPc → HandleKind → Bool
  | .closing p => p.past
  | _ => fun _ => false

/-- With a connection or a configuration opened and not stored. -/
def ThreadPc.opened : ThreadPc → Bool
  | .connect (.store kind _ .read) | .connect (.store kind _ (.write _)) => kind ≠ .registration
  | _ => false

/-- From the open of a connection to `configuration_.get()` for its start. -/
def ThreadPc.dialing : ThreadPc → Bool
  | .connect (.store .connection _ _) | .connect .resolve | .connect .setParam |
    .connect .start | .connect (.startConfig _) => true
  | _ => false

/-- About to start a connection with this configuration. -/
def ThreadPc.starting (c : Handle) : ThreadPc → Bool
  | .connect (.startCall _ (some x)) => x = c
  | _ => false

/-- The steps that keep `main`'s `close` apart from `connect`. -/
def State.apart (s : State) : Action → Bool
  | .thread ok =>
    match s.thread with
    -- a child is not stored where `main` has passed it and goes on to close the registration
    | .connect (.store kind _ (.write _)) => !s.main.past kind
    -- a connection is not opened when the configuration is gone
    | .connect (.openCall .connection parent) =>
      !(ok && parent.isSome) || (s.shared.held .configuration).isSome
    | _ => true
  | .main _ =>
    match s.main with
    -- the configuration of a connection that is about to be started is not taken away
    | .closing (.reset .configuration (.write (some _))) => !s.thread.dialing
    -- nor closed
    | .closing (.reset .configuration (.call c)) => !s.thread.starting c
    -- the registration is not closed while a child is opened and not stored
    | .closing (.reset .registration (.call _)) => !s.thread.opened
    | _ => true
  | _ => true

/-! ## The invariant -/

def ThreadPc.grip : ThreadPc → HandleKind → Grip
  | .close _ p => p.grip
  | .connect p => p.grip
  | _ => fun _ => .empty

def MainPc.grip : MainPc → HandleKind → Grip
  | .closing p => p.grip
  | _ => fun _ => .empty

/-- What the two have of the handles. -/
def grips (t : ThreadPc) (m : MainPc) (who : Closer) : HandleKind → Grip := who.pick t.grip m.grip

theorem update_grips_thread {t t' : ThreadPc} {g : HandleKind → Grip} (hg : t'.grip = g)
    (m : MainPc) : Function.update (grips t m) .thread g = grips t' m := by
  subst hg
  funext who
  cases who <;> rfl

theorem update_grips_main {m m' : MainPc} {g : HandleKind → Grip} (hg : m'.grip = g)
    (t : ThreadPc) : Function.update (grips t m) .main g = grips t m' := by
  subst hg
  funext who
  cases who <;> rfl

/-- The order in which `connect` stores. -/
def HandleKind.openRank : HandleKind → Nat
  | .registration => 0
  | .configuration => 1
  | .connection => 2

/-- The pointers that `connect` has still to store. -/
def ConnectPc.before : ConnectPc → HandleKind → Bool
  | .resetFlags, _ | .apiInit, _ => true
  | .openHandle kind, k | .openCall kind _, k => kind.openRank ≤ k.openRank
  | .store kind _ p, k => kind.openRank < k.openRank || (k = kind && !p.written)
  | .loadCredential, k => k = .connection
  | _, _ => false

/-- The pointers that are null at a position of the thread: between its reset and its store. -/
def ThreadPc.null : ThreadPc → HandleKind → Bool
  | .close _ p => p.cleared
  | .connect p => p.before
  | _ => fun _ => false

/-- What the conditions of `apart` keep. -/
structure Ordered (s : Shared) (t : ThreadPc) (m : MainPc) : Prop where
  custody : ∀ k, k ≠ .registration → (s.custody (grips t m) k).Sound
  stored : ∀ kind raw p, t = .connect (.store kind raw p) → p = .read ∨ p = .write none
  null : ∀ k, t.null k = true → s.held k = none
  threadMatched : ∀ site p, t = .close site p → p.Matched s
  mainMatched : ∀ kind old, m = .closing (.reset kind (.write old)) → kind ≠ .registration →
    old = s.held kind
  past : ∀ p k, m = .closing p → p.past k = true → p.cleared k = true → s.held k = none
  dialing : t.dialing = true → s.held .configuration ≠ none
  starting : ∀ h config, t = .connect (.startCall h config) → ∃ c, config = some c ∧
    c < s.next .configuration ∧ (s.handles .configuration c).closing = false

theorem past_ne {p : ClosePc} {k : HandleKind} (h : p.past k = true) : k ≠ .registration := by
  rintro rfl
  cases p with
  | reset kind p => cases kind <;> cases h
  | lock | test | shutdown | unlock => cases h

/-! ## The steps of the thread -/

variable {s s' : Shared} {t : ThreadPc} {m : MainPc} {ok : Bool}

/-- A step of the thread's `close`. -/
theorem Ordered.thread_close (hs : Ordered s t m) {site : CloseSite} {p : ClosePc}
    {q : Option ClosePc} (ht : t = .close site p) (hmutex : t.inside = true → m.inside = false)
    (h : closeStep .thread s p = some (s', q)) :
    Ordered s' (q.elim site.after (.close site)) m where
  custody k hk := by
    have hstep := closeStep_custody (grips t m) .thread h (ht ▸ rfl) k
      fun old heq => hs.threadMatched site p ht k old heq
    have hgrip : (q.elim site.after (.close site) : ThreadPc).grip =
        q.elim (fun _ => .empty) ClosePc.grip := by
      cases q <;> cases site <;> rfl
    rw [update_grips_thread hgrip] at hstep
    exact (hs.custody k hk).step hstep
  stored kind raw p' heq := by
    cases q <;> cases site <;> cases heq
  null k hk := by
    refine closeStep_cleared h (fun hp => hs.null k (ht ▸ hp)) fun p' heq => ?_
    subst heq
    exact hk
  threadMatched site' p' heq := by
    cases q with
    | none => cases site <;> cases heq
    | some p'' =>
      cases heq
      exact closeStep_matched h
  mainMatched kind old heq hkind := by
    -- `main` is inside its `close`, so the thread is not
    rcases closeStep_held h with ⟨kind', old', rfl, -⟩ | hheld
    · cases (hmutex (ht ▸ rfl)).symm.trans (heq ▸ rfl : m.inside = true)
    · rw [hheld]
      exact hs.mainMatched kind old heq hkind
  past p' k heq hpast hcleared := closeStep_null h (hs.past p' k heq hpast hcleared)
  dialing hd := by
    cases q <;> cases site <;> cases hd
  starting x config heq := by
    cases q <;> cases site <;> cases heq

/-- The only position behind `ConnectionStart`. -/
theorem connectStep_startCall {x config : Option Handle} {p' : ConnectPc}
    (h : connectStep s ok (.startCall x config) = some (s', .goto p')) : p' = .handshake := by
  cases x with
  | none => cases h
  | some x =>
    cases config with
    | none => cases h
    | some config =>
      simp only [connectStep] at h
      split at h <;> cases h
      rfl

/-- What is still to be stored where the store of a handle leads to. -/
theorem before_store {kind k : HandleKind} {raw : Handle} {q : Option AssignPc}
    (h : (q.elim kind.afterStore (.store kind raw)).before k = true) :
    kind.openRank < k.openRank ∨ (k = kind ∧ q.elim true AssignPc.written = false) := by
  cases q with
  | none =>
    refine Or.inl ?_
    cases kind <;> cases k <;> first | decide | cases h
  | some p => simpa [ConnectPc.before] using h

/-- What is before its store behind a step of `connect` was so before it, and is untouched. -/
theorem connectStep_before {p p' : ConnectPc} (h : connectStep s ok p = some (s', .goto p'))
    {k : HandleKind} (hk : p'.before k = true) : p.before k = true ∧ s'.held k = s.held k := by
  cases p with
  | resetFlags =>
    cases h
    exact ⟨rfl, rfl⟩
  | apiInit =>
    simp only [connectStep] at h
    split at h
    · cases h
      exact ⟨rfl, rfl⟩
    · split at h <;> cases h
      exact ⟨rfl, rfl⟩
  | openHandle kind =>
    cases h
    exact ⟨hk, rfl⟩
  | openCall kind parent =>
    simp only [connectStep] at h
    split at h <;> cases h
    refine ⟨?_, rfl⟩
    cases kind <;> cases k <;> first | rfl | cases hk
  | store kind raw p₀ =>
    obtain ⟨q₀, hassign, hpc⟩ := connectStep_store h
    have hrank := before_store (ConnectNext.goto.inj hpc ▸ hk)
    rcases assignStep_held hassign with ⟨-, hheld, hwritten⟩ | ⟨hheld, hwritten⟩
    · have hlt := hrank.resolve_right fun hand => by cases hand.2.symm.trans hwritten
      have hne : k ≠ kind := fun heq => by
        subst heq
        exact Nat.lt_irrefl _ hlt
      rw [hheld, Function.update_of_ne hne]
      exact ⟨by simp [ConnectPc.before, hlt], rfl⟩
    · refine ⟨?_, congrFun hheld k⟩
      rcases hrank with hlt | ⟨rfl, hq⟩
      · simp [ConnectPc.before, hlt]
      · simp [ConnectPc.before, ← hwritten, hq]
  | loadCredential =>
    cases ok with
    | true =>
      cases h
      cases k <;> first | exact ⟨rfl, rfl⟩ | cases hk
    | false => cases h
  | resolve =>
    cases ok <;> cases h
    cases hk
  | setParam | start | startConfig =>
    cases h
    cases hk
  | handshake => cases h
  | startCall x config =>
    obtain rfl := connectStep_startCall h
    cases hk

/-- A position from which a connection is going to be started is reached from another such, or by
the open of the connection. -/
theorem connectStep_dialing {p : ConnectPc} {q : ConnectNext}
    (h : connectStep s ok p = some (s', q)) (hd : q.pc.dialing = true) :
    s'.held .configuration = s.held .configuration ∧
      ((ThreadPc.connect p).dialing = true ∨
        ∃ parent, p = .openCall .connection parent ∧ (ok && parent.isSome) = true) := by
  rcases q with p' | _ | _
  · cases p with
    | resetFlags =>
      cases h
      cases hd
    | apiInit =>
      simp only [connectStep] at h
      split at h
      · cases h
        cases hd
      · split at h <;> cases h
        cases hd
    | openHandle kind =>
      cases h
      cases hd
    | openCall kind parent =>
      simp only [connectStep] at h
      split at h <;> cases h
      next hok =>
        cases kind with
        | connection => exact ⟨rfl, Or.inr ⟨parent, rfl, by simpa using hok⟩⟩
        | registration | configuration => cases hd
    | store kind raw p₀ =>
      obtain ⟨q₀, hassign, hpc⟩ := connectStep_store h
      obtain rfl := ConnectNext.goto.inj hpc
      cases kind with
      | connection =>
        refine ⟨?_, Or.inl rfl⟩
        rcases assignStep_held hassign with ⟨-, hheld, -⟩ | ⟨hheld, -⟩
        · rw [hheld]
          exact Function.update_of_ne (by decide) ..
        · rw [hheld]
      | registration | configuration => cases q₀ <;> cases hd
    | loadCredential =>
      cases ok <;> cases h
      cases hd
    | resolve =>
      cases ok <;> cases h
      exact ⟨rfl, Or.inl rfl⟩
    | setParam | start =>
      cases h
      exact ⟨rfl, Or.inl rfl⟩
    | startConfig x =>
      cases h
      cases hd
    | handshake => cases h
    | startCall x config =>
      obtain rfl := connectStep_startCall h
      cases hd
  · cases hd
  · cases hd

/-- `ConnectionStart` is called with what `configuration_.get()` gave. -/
theorem connectStep_toStart {p : ConnectPc} {x config : Option Handle}
    (h : connectStep s ok p = some (s', .goto (.startCall x config))) :
    p = .startConfig x ∧ s' = s ∧ config = s.held .configuration := by
  cases p with
  | startConfig y =>
    cases h
    exact ⟨rfl, rfl, rfl⟩
  | apiInit =>
    simp only [connectStep] at h
    split at h
    · cases h
    · split at h <;> cases h
  | openCall kind parent =>
    simp only [connectStep] at h
    split at h <;> cases h
  | store kind raw p₀ =>
    obtain ⟨q₀, -, hpc⟩ := connectStep_store h
    cases q₀ with
    | none => cases kind <;> cases hpc
    | some p₁ => cases hpc
  | loadCredential | resolve => cases ok <;> cases h
  | startCall y config' => cases connectStep_startCall h
  | resetFlags | openHandle | setParam | start | handshake => cases h

/-- A step of `connect`. -/
theorem Ordered.thread_connect (hs : Ordered s t m) {p : ConnectPc} {q : ConnectNext}
    (ht : t = .connect p)
    (hstore : ∀ kind raw old, p = .store kind raw (.write old) → m.past kind = false)
    (hopen : ∀ parent, p = .openCall .connection parent → (ok && parent.isSome) = true →
      s.held .configuration ≠ none)
    (h : connectStep s ok p = some (s', q)) : Ordered s' q.pc m where
  custody k hk := by
    have hwrite : ∀ raw old, p = .store k raw (.write old) → old = s.held k := by
      rintro raw old rfl
      have hnull := hs.null k (ht ▸ by simp [ThreadPc.null, ConnectPc.before, AssignPc.written])
      rcases hs.stored k raw _ ht with heq | heq <;> cases heq
      exact hnull.symm
    have hstep := connectStep_custody (grips t m) .thread h (ht ▸ rfl) k hwrite
    have hgrip : q.pc.grip = q.grip := by
      rcases q with p' | _ | _ <;> rfl
    rw [update_grips_thread hgrip] at hstep
    exact (hs.custody k hk).step hstep
  stored kind raw p' heq := by
    rcases connectStep_cases h with ⟨kind', raw', p₀, q₀, rfl, hassign, rfl⟩ |
      ⟨kind', parent, rfl, rfl, rfl⟩ | ⟨-, hq, -⟩
    · have hnull := hs.null kind'
      rcases hs.stored kind' raw' p₀ ht with rfl | rfl
      · cases hassign
        cases heq
        rw [hnull (ht ▸ by simp [ThreadPc.null, ConnectPc.before, AssignPc.written])]
        exact Or.inr rfl
      · cases hassign
        cases kind' <;> cases heq
    · cases heq
      exact Or.inl rfl
    · rcases q with p'' | _ | _
      · cases heq
        exact absurd rfl (hq kind raw p')
      · cases heq
      · cases heq
  null k hk := by
    rcases q with p' | _ | _
    · obtain ⟨hbefore, hheld⟩ := connectStep_before h hk
      rw [hheld]
      exact hs.null k (ht ▸ hbefore)
    · cases hk
    · cases hk
  threadMatched site p' heq := by
    rcases q with p'' | _ | _ <;> cases heq
  mainMatched kind old heq hkind := by
    have hold := hs.mainMatched kind old heq hkind
    rcases connectStep_held h with ⟨kind', raw, old', hp, hheld⟩ | hheld
    · have hfree := hstore kind' raw old' hp
      have hne : kind ≠ kind' := by
        rintro rfl
        rw [heq] at hfree
        cases kind with
        | registration => exact hkind rfl
        | configuration | connection => cases hfree
      rw [hheld, Function.update_of_ne hne]
      exact hold
    · rw [hheld]
      exact hold
  past p' k heq hpast hcleared := by
    have hold := hs.past p' k heq hpast hcleared
    rcases connectStep_held h with ⟨kind', raw, old', hp, hheld⟩ | hheld
    · have hne : k ≠ kind' := by
        rintro rfl
        have hfree := hstore k raw old' hp
        rw [heq] at hfree
        cases hfree.symm.trans hpast
      rw [hheld, Function.update_of_ne hne]
      exact hold
    · rw [hheld]
      exact hold
  dialing hd := by
    obtain ⟨hheld, hdialing | ⟨parent, hp, hok⟩⟩ := connectStep_dialing h hd
    · rw [hheld]
      exact hs.dialing (ht ▸ hdialing)
    · rw [hheld]
      exact hopen parent hp hok
  starting x config heq := by
    rcases q with p' | _ | _
    · cases heq
      obtain ⟨rfl, rfl, rfl⟩ := connectStep_toStart h
      obtain ⟨c, hheld⟩ := Option.ne_none_iff_exists'.mp (hs.dialing (ht ▸ rfl))
      exact ⟨c, hheld, (hs.custody .configuration nofun).cell c hheld⟩
    · cases heq
    · cases heq

/-- Outside `connect`, and at most about to take the lock, the thread has and closes nothing. -/
theorem ThreadPc.outside (hconnect : ∀ p, t ≠ .connect p)
    (hclose : ∀ site p, t = .close site p → p = .lock) : t.grip = (fun _ => .empty) ∧
      t.closeCall = [] ∧ (∀ k, t.null k = false) ∧ t.dialing = false := by
  cases t with
  | close site p =>
    rw [hclose site p rfl]
    exact ⟨rfl, rfl, fun _ => rfl, rfl⟩
  | connect p => exact absurd rfl (hconnect p)
  | install | check | clearDisc | sleep | post | await | advertise | wait | recheck |
    clearHandler | done => exact ⟨rfl, rfl, fun _ => rfl, rfl⟩

/-- A step of the thread outside `close` and `connect`. -/
theorem Ordered.thread_other (hs : Ordered s t m) {t' : ThreadPc} (hsame : SameHandles s s')
    (hgrip : t.grip = fun _ => .empty) (hconnect : ∀ p, t' ≠ .connect p)
    (hclose : ∀ site p, t' = .close site p → p = .lock) : Ordered s' t' m := by
  obtain ⟨hgrip', -, hnull, hdialing⟩ := ThreadPc.outside hconnect hclose
  have hgrips : grips t' m = grips t m := by
    rw [← update_grips_thread (hgrip'.trans hgrip.symm) m]
    exact Function.update_eq_self .thread (grips t m)
  exact {
    custody := fun k hk => by
      rw [hgrips, hsame.custody]
      exact hs.custody k hk
    stored := fun kind raw p heq => absurd heq (hconnect _)
    null := fun k hk => by cases (hnull k).symm.trans hk
    threadMatched := fun site p heq => by
      rw [hclose site p heq]
      nofun
    mainMatched := fun kind old heq hkind => hsame.held ▸ hs.mainMatched kind old heq hkind
    past := fun p k heq hpast hcleared => hsame.held ▸ hs.past p k heq hpast hcleared
    dialing := fun hd => by cases hdialing.symm.trans hd
    starting := fun x config heq => absurd heq (hconnect _) }

/-! ## The steps of `main` -/

/-- What is past and cleared behind a step of `close` was past before it, if it was cleared. -/
theorem closeStep_past {who : Closer} {p p' : ClosePc} (h : closeStep who s p = some (s', some p'))
    {k : HandleKind} (hpast : p'.past k = true) (hcleared : p.cleared k = true) :
    p.past k = true := by
  rcases closeStep_cases h with ⟨kind, p₀, q₀, rfl, hassign, hq⟩ | ⟨hp, -, -⟩
  · cases kind with
    | registration =>
      obtain rfl := Option.some.inj hq
      have hne := past_ne hpast
      rcases assignStep_cases hassign with ⟨rfl, -, rfl⟩ | ⟨old, rfl, -, rfl⟩ |
        ⟨old, rfl, rfl, -⟩ | ⟨old, rfl, rfl, -⟩
      · simp [ClosePc.past, AssignPc.toCall, hne]
      · cases old with
        | none => cases hpast
        | some old => exact hpast
      · simp [ClosePc.past, AssignPc.toCall] at hpast
      · cases hpast
    | configuration | connection =>
      have hread : p₀.written = true → p₀ ≠ .read := by
        rintro hw rfl
        cases hw
      simp only [ClosePc.cleared, Bool.or_eq_true, Bool.and_eq_true, decide_eq_true_eq] at hcleared
      simp only [ClosePc.past, Bool.or_eq_true, Bool.and_eq_true, decide_eq_true_eq]
      exact hcleared.imp_right (And.imp_right hread)
  · cases p with
    | reset kind p₀ => exact absurd rfl (hp kind p₀)
    | lock | test | shutdown => cases hcleared
    | unlock => cases h

/-- A step of `main`'s `close`. -/
theorem Ordered.main_close (hs : Ordered s t m) {p : ClosePc} {q : Option ClosePc}
    (hm : m = .closing p) (hmutex : t.inside = true → m.inside = false)
    (hwrite : ∀ old, p = .reset .configuration (.write (some old)) → t.dialing = false)
    (hcall : ∀ c, p = .reset .configuration (.call c) → t.starting c = false)
    (h : closeStep .main s p = some (s', q)) : Ordered s' t (q.elim .joining .closing) where
  custody k hk := by
    have hstep := closeStep_custody (grips t m) .main h (hm ▸ rfl) k
      fun old heq => hs.mainMatched k old (heq ▸ hm) hk
    have hgrip : (q.elim .joining .closing : MainPc).grip =
        q.elim (fun _ => .empty) ClosePc.grip := by
      cases q <;> rfl
    rw [update_grips_main hgrip] at hstep
    exact (hs.custody k hk).step hstep
  stored := hs.stored
  null k hk := closeStep_null h (hs.null k hk)
  threadMatched site p' heq := by
    rcases closeStep_held h with ⟨kind, old, rfl, -⟩ | hheld
    · intro kind' old' hp'
      subst hp'
      cases (hmutex (heq ▸ rfl)).symm.trans (hm ▸ rfl : m.inside = true)
    · intro kind old heq'
      rw [hheld]
      exact hs.threadMatched site p' heq kind old heq'
  mainMatched kind old heq hkind := by
    cases q with
    | none => cases heq
    | some p' =>
      cases heq
      exact closeStep_matched h kind old rfl
  past p' k heq hpast hcleared := by
    cases q with
    | none => cases heq
    | some p'' =>
      cases heq
      refine closeStep_cleared h (fun hc => hs.past p k hm (closeStep_past h hpast hc) hc) ?_
      intro p₀ heq
      cases heq
      exact hcleared
  dialing hd := by
    have hold := hs.dialing hd
    rcases closeStep_held h with ⟨kind, old, rfl, hheld⟩ | hheld
    · rw [hheld]
      cases kind with
      | configuration =>
        cases old with
        | none => exact absurd (hs.mainMatched .configuration none hm nofun).symm hold
        | some old => cases (hwrite old rfl).symm.trans hd
      | registration | connection =>
        rw [Function.update_of_ne (by decide)]
        exact hold
    · rw [hheld]
      exact hold
  starting x config heq := by
    obtain ⟨c, rfl, hlt, hclosing⟩ := hs.starting x config heq
    refine ⟨c, rfl, (closeStep_rest h).2 ▸ hlt, ?_⟩
    rcases closeStep_closing h .configuration c with hp | hsame
    · have hfree := hcall c hp
      rw [heq] at hfree
      simp [ThreadPc.starting] at hfree
    · rw [hsame]
      exact hclosing

/-- A step of `main` outside `close`. -/
theorem Ordered.main_other (hs : Ordered s t m) {m' : MainPc} (hm : ∀ p, m ≠ .closing p)
    (hclose : ∀ p, m' = .closing p → p = .lock) : Ordered s t m' where
  custody k hk := by
    have hgrip' : m'.grip = m.grip := by
      have hold : m.grip = fun _ => .empty := by
        cases m with
        | closing p => exact absurd rfl (hm p)
        | waiting | pumping | stopping | storeStop | joining | done => rfl
      rw [hold]
      cases m' with
      | closing p => rw [hclose p rfl]; rfl
      | waiting | pumping | stopping | storeStop | joining | done => rfl
    have hgrips : grips t m' = grips t m := by
      rw [← update_grips_main hgrip' t]
      exact Function.update_eq_self .main (grips t m)
    rw [hgrips]
    exact hs.custody k hk
  stored := hs.stored
  null := hs.null
  threadMatched := hs.threadMatched
  mainMatched kind old heq := by cases hclose _ heq
  past p k heq hpast := by
    rw [hclose p heq] at hpast
    cases hpast
  dialing := hs.dialing
  starting := hs.starting

/-- A step of anybody else. -/
theorem Ordered.same (hs : Ordered s t m) (hsame : SameHandles s s') : Ordered s' t m where
  custody k hk := hsame.custody (grips t m) k ▸ hs.custody k hk
  stored := hs.stored
  null k hk := hsame.held ▸ hs.null k hk
  threadMatched site p heq kind old hp := hsame.held ▸ hs.threadMatched site p heq kind old hp
  mainMatched kind old heq hkind := hsame.held ▸ hs.mainMatched kind old heq hkind
  past p k heq hpast hcleared := hsame.held ▸ hs.past p k heq hpast hcleared
  dialing hd := hsame.held ▸ hs.dialing hd
  starting x config heq := by
    rw [hsame.next, hsame.handles]
    exact hs.starting x config heq

end Cfd.Tunnel.Session
