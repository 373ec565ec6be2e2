import Cfd.Tunnel.Apart
import Cfd.Tunnel.Slot

/-!
# Children before their registration

Every step that keeps `main`'s `close` apart from `connect` keeps `Ordered`. With it, a thread that
calls `RegistrationClose` finds no pointer to a child and no child on its way, so all children have
been closed, and a configuration that is passed to `ConnectionStart` is open (`children_first`).
`children_first_fails` are two runs that leave the conditions out.
-/

set_option autoImplicit false

namespace Cfd.Tunnel.Session

open Cfd.Base

variable {s s' : Shared} {t : ThreadPc} {m : MainPc} {ok : Bool}

/-! ## Runs -/

theorem threadStep_other {t' : ThreadPc} (h : threadStep s ok t = some (s', t'))
    (hclose : ∀ site p, t ≠ .close site p) (hconnect : ∀ p, t ≠ .connect p) :
    SameHandles s s' ∧ t.grip = (fun _ => .empty) ∧ (∀ site p, t' = .close site p → p = .lock) ∧
      ((∀ p, t' ≠ .connect p)) := by
  cases t with
  | close site p => exact absurd rfl (hclose site p)
  | connect p => exact absurd rfl (hconnect p)
  | check =>
    cases h
    refine ⟨⟨rfl, rfl, rfl⟩, rfl, fun site p heq => ?_, fun p heq => ?_⟩ <;> split at heq <;>
      cases heq
  | recheck =>
    cases h
    refine ⟨⟨rfl, rfl, rfl⟩, rfl, fun site p heq => ?_, fun p heq => ?_⟩ <;> split at heq <;>
      cases heq
  | await =>
    simp only [threadStep] at h
    split at h
    · cases h
      exact ⟨⟨rfl, rfl, rfl⟩, rfl, by simp, by simp⟩
    · cases h
      refine ⟨⟨rfl, rfl, rfl⟩, rfl, fun site p heq => ?_, by simp⟩
      cases heq
      rfl
    · cases h
  | wait =>
    simp only [threadStep] at h
    split at h <;> cases h
    exact ⟨⟨rfl, rfl, rfl⟩, rfl, by simp, by simp⟩
  | clearDisc | clearHandler =>
    cases h
    refine ⟨⟨rfl, rfl, rfl⟩, rfl, fun site p heq => ?_, by simp⟩
    cases heq
    rfl
  | install | sleep | post | advertise =>
    cases h
    exact ⟨⟨rfl, rfl, rfl⟩, rfl, by simp, by simp⟩
  | done => cases h

/-- **A step of the thread** is a step of its `close`, a step of its `connect`, or leaves the handles
alone. -/
theorem threadStep_cases {t' : ThreadPc} (h : threadStep s ok t = some (s', t')) :
    (∃ site p q, t = .close site p ∧ closeStep .thread s p = some (s', q) ∧
        t' = q.elim site.after (.close site)) ∨
      (∃ p q, t = .connect p ∧ connectStep s ok p = some (s', q) ∧ t' = q.pc) ∨
      (SameHandles s s' ∧ t.grip = (fun _ => .empty) ∧ (∀ site p, t' = .close site p → p = .lock) ∧
        (∀ p, t' ≠ .connect p)) := by
  by_cases hclose : ∃ site p, t = .close site p
  · obtain ⟨site, p, rfl⟩ := hclose
    rw [threadStep_close] at h
    obtain ⟨⟨s'', q⟩, hstep, heq⟩ := Option.map_eq_some_iff.mp h
    cases heq
    exact Or.inl ⟨site, p, q, rfl, hstep, rfl⟩
  · by_cases hconnect : ∃ p, t = .connect p
    · obtain ⟨p, rfl⟩ := hconnect
      rw [threadStep_connect] at h
      obtain ⟨⟨s'', q⟩, hstep, heq⟩ := Option.map_eq_some_iff.mp h
      cases heq
      exact Or.inr (Or.inl ⟨p, q, rfl, hstep, rfl⟩)
    · exact Or.inr (Or.inr (threadStep_other h (fun site p heq => hclose ⟨site, p, heq⟩)
        fun p heq => hconnect ⟨p, heq⟩))

theorem kjStep_same {k k' : KjPc} (h : kjStep s ok k = some (s', k')) : SameHandles s s' := by
  cases k with
  | idle =>
    simp only [kjStep] at h
    split at h <;> cases h
    exact ⟨rfl, rfl, rfl⟩
  | registering p =>
    simp only [kjStep] at h
    split at h <;> cases h <;> exact ⟨rfl, rfl, rfl⟩
  | rpc | answer =>
    cases h
    exact ⟨rfl, rfl, rfl⟩

/-- A step of the thread, that keeps apart from `main`. -/
theorem Ordered.thread (hs : Ordered s t m) {t' : ThreadPc} {r : RouterPc} {k : KjPc}
    (hmutex : t.inside = true → m.inside = false)
    (hapart : State.apart ⟨s, t, r, k, m⟩ (.thread ok) = true)
    (h : threadStep s ok t = some (s', t')) : Ordered s' t' m := by
  rcases threadStep_cases h with ⟨site, p, q, ht, hstep, rfl⟩ | ⟨p, q, rfl, hstep, rfl⟩ |
    ⟨hsame, hgrip, hlock, hnext⟩
  · exact hs.thread_close ht hmutex hstep
  · refine hs.thread_connect rfl ?_ ?_ hstep
    · rintro kind raw old rfl
      simpa [State.apart] using hapart
    · rintro parent rfl hok
      simp only [State.apart, hok, Bool.not_true, Bool.false_or] at hapart
      exact Option.isSome_iff_ne_none.mp hapart
  · exact hs.thread_other hsame hgrip hnext hlock

/-- **A step of `main`** is a step of its `close`, or leaves the handles alone. -/
theorem mainStep_cases {s : State} {s' : Shared} {m' : MainPc} (h : mainStep s ok = some (s', m')) :
    (∃ p q, s.main = .closing p ∧ closeStep .main s.shared p = some (s', q) ∧
        m' = q.elim .joining .closing) ∨
      (SameHandles s.shared s' ∧ (∀ p, s.main ≠ .closing p) ∧ ∀ p, m' = .closing p → p = .lock) := by
  obtain ⟨sh, t, r, k, m⟩ := s
  cases m with
  | closing p =>
    simp only [mainStep] at h
    split at h
    · cases h
    next p' hclose =>
      cases h
      exact Or.inl ⟨p, some p', rfl, hclose, rfl⟩
    next hclose =>
      cases h
      exact Or.inl ⟨p, none, rfl, hclose, rfl⟩
  | waiting =>
    cases h
    refine Or.inr ⟨⟨rfl, rfl, rfl⟩, by simp, ?_⟩
    intro p heq
    split at heq <;> cases heq
  | storeStop =>
    cases h
    refine Or.inr ⟨⟨rfl, rfl, rfl⟩, by simp, ?_⟩
    intro p heq
    cases heq
    rfl
  | pumping | stopping | joining =>
    simp only [mainStep] at h
    split at h <;> cases h
    exact Or.inr ⟨⟨rfl, rfl, rfl⟩, by simp, by simp⟩
  | done => cases h

/-- A step of `main`, that keeps apart from the thread. -/
theorem Ordered.main {s : State} (hs : Ordered s.shared s.thread s.main) {s' : Shared} {m' : MainPc}
    (hmutex : s.thread.inside = true → s.main.inside = false)
    (hapart : s.apart (.main ok) = true) (h : mainStep s ok = some (s', m')) :
    Ordered s' s.thread m' := by
  rcases mainStep_cases h with ⟨p, q, hp, hclose, rfl⟩ | ⟨hsame, hm, hlock⟩
  · apply hs.main_close hp hmutex ?_ ?_ hclose
    · rintro old rfl
      simpa [State.apart, hp] using hapart
    · rintro c rfl
      simpa [State.apart, hp] using hapart
  · exact (hs.same hsame).main_other hm hlock

/-- `close` excludes `close`. -/
theorem View.Locked.excludes {s : State} (hlock : s.view.Locked) (ht : s.thread.inside = true) :
    s.main.inside = false := by
  refine Bool.eq_false_iff.mpr fun hm => ?_
  cases (hlock.mutex .thread ht).symm.trans (hlock.mutex .main hm)

/-- **Every step that keeps `main` apart from the thread keeps the order.** -/
theorem Ordered.step {s s' : State} {a : Action} (hlock : s.view.Locked)
    (hs : Ordered s.shared s.thread s.main) (hapart : s.apart a = true) (h : s.step a = some s') :
    Ordered s'.shared s'.thread s'.main := by
  have hmutex := hlock.excludes
  cases a with
  | thread ok =>
    obtain ⟨⟨sh, t'⟩, hstep, rfl⟩ := Option.map_eq_some_iff.mp h
    exact hs.thread hmutex hapart hstep
  | main ok =>
    obtain ⟨⟨sh, m'⟩, hstep, rfl⟩ := Option.map_eq_some_iff.mp h
    exact hs.main hmutex hapart hstep
  | router =>
    obtain ⟨p, -, rfl⟩ := Option.map_eq_some_iff.mp h
    exact hs
  | kj ok =>
    obtain ⟨⟨sh, k'⟩, hstep, rfl⟩ := Option.map_eq_some_iff.mp h
    exact hs.same (kjStep_same hstep)
  | event x e =>
    obtain ⟨sh, hstep, rfl⟩ := Option.map_eq_some_iff.mp h
    exact hs.same (deliver_same hstep).1
  | callback x =>
    obtain ⟨sh, hstep, rfl⟩ := Option.map_eq_some_iff.mp h
    exact hs.same (callbackStep_same hstep).1
  | signal =>
    cases h
    exact hs.same ⟨rfl, rfl, rfl⟩

theorem ordered_init : Ordered session.init.shared session.init.thread session.init.main where
  custody k _ := by
    have hnone : ∀ who,
        (session.init.shared.custody (grips .install .waiting) k).grip who = .empty :=
      fun who => by cases who <;> rfl
    refine ⟨nofun, fun who x h => ?_, fun who who' x h => ?_, fun who x h => ?_, nofun, nofun⟩ <;>
      cases (hnone who).symm.trans h
  stored := nofun
  null := nofun
  threadMatched := nofun
  mainMatched := nofun
  past := nofun
  dialing := nofun
  starting := nofun

/-- The runs in which `main`'s `close` keeps apart from `connect`. -/
abbrev Apart (s : State) (a : Action) : Prop := s.apart a = true

theorem reach_ordered {s : State} (h : session.Reach Apart s) :
    Ordered s.shared s.thread s.main :=
  h.invariant (I := fun s => Ordered s.shared s.thread s.main) ordered_init
    fun _ _ _ hr hapart hstep hs => hs.step (reach_slotted hr).1 hapart hstep

/-- Where neither has a child and no pointer holds one, the children are closed. -/
theorem Ordered.closed (hs : Ordered s t m) {k : HandleKind} (hk : k ≠ .registration)
    (hheld : s.held k = none) (ht : t.grip k = .empty) (hm : m.grip k = .empty) {x : Handle}
    (hlt : x < s.next k) : (s.handles k x).closed = true :=
  (hs.custody k hk).all_ended hheld (fun who => by cases who <;> assumption) hlt

theorem ClosePc.mem_closeCall {p : ClosePc} {k : HandleKind} {x : Handle}
    (h : (k, x) ∈ p.closeCall) : p = .reset k (.call x) := by
  rcases p.reset_or with ⟨kind, p₀, rfl⟩ | ⟨-, hnil⟩
  · cases p₀ with
    | call old =>
      cases List.mem_singleton.mp h
      rfl
    | read | write | drain => cases h
  · rw [hnil] at h
    cases h

theorem MainPc.grip_outside (h : m.inside = false) : m.grip = fun _ => .empty := by
  cases m with
  | closing p =>
    cases p with
    | lock => rfl
    | test | shutdown | reset | unlock => cases h
  | waiting | pumping | stopping | storeStop | joining | done => rfl

/-- When the thread closes a registration. -/
theorem Ordered.thread_closes (hs : Ordered s t m) (hmutex : t.inside = true → m.inside = false)
    {r : Handle} (hr : (.registration, r) ∈ t.closeCall) {k : HandleKind} (hk : k ≠ .registration)
    {x : Handle} (hlt : x < s.next k) : (s.handles k x).closed = true := by
  by_cases hclose : ∃ site p, t = .close site p
  · obtain ⟨site, p, rfl⟩ := hclose
    obtain rfl := ClosePc.mem_closeCall hr
    have hcleared : (ClosePc.reset .registration (.call r)).cleared k = true := by
      cases k with
      | registration => exact absurd rfl hk
      | configuration | connection => rfl
    exact hs.closed hk (hs.null k hcleared) (if_neg hk)
      (congrFun (MainPc.grip_outside (hmutex rfl)) k) hlt
  · exfalso
    by_cases hconnect : ∃ p, t = .connect p
    · obtain ⟨p, rfl⟩ := hconnect
      change (.registration, r) ∈ p.closeCall at hr
      rcases p.store_or with ⟨kind, raw, p₀, rfl⟩ | ⟨-, hnil⟩
      · rcases hs.stored kind raw p₀ rfl with rfl | rfl <;> cases hr
      · rw [hnil] at hr
        cases hr
    · obtain ⟨-, hnil, -, -⟩ := ThreadPc.outside (fun p heq => hconnect ⟨p, heq⟩)
        fun site p heq => absurd ⟨site, p, heq⟩ hclose
      rw [hnil] at hr
      cases hr

/-- What the thread has while `main` is inside `close`, when it has opened nothing. -/
theorem Ordered.thread_grip (hs : Ordered s t m) (hmutex : t.inside = true → m.inside = false)
    (hm : m.inside = true) (hopened : t.opened = false) {k : HandleKind} (hk : k ≠ .registration) :
    t.grip k = .empty := by
  by_cases hconnect : ∃ p, t = .connect p
  · obtain ⟨p, rfl⟩ := hconnect
    change p.grip k = .empty
    rcases p.store_or with ⟨kind, raw, p₀, rfl⟩ | ⟨hgrip, -⟩
    · refine if_neg ?_
      rintro rfl
      rcases hs.stored k raw p₀ rfl with rfl | rfl <;> simp [ThreadPc.opened, hk] at hopened
    · rw [hgrip]
  · have hlock : ∀ site p, t = .close site p → p = .lock := by
      rintro site p rfl
      cases p with
      | lock => rfl
      | test | shutdown | reset | unlock => cases (hmutex rfl).symm.trans hm
    obtain ⟨hgrip, -⟩ := ThreadPc.outside (fun p heq => hconnect ⟨p, heq⟩) hlock
    rw [hgrip]

/-- When `main` closes a registration. -/
theorem Ordered.main_closes (hs : Ordered s t m) (hmutex : t.inside = true → m.inside = false)
    {r : Handle} (hm : m = .closing (.reset .registration (.call r))) (hopened : t.opened = false)
    {k : HandleKind} (hk : k ≠ .registration) {x : Handle} (hlt : x < s.next k) :
    (s.handles k x).closed = true := by
  subst hm
  have hheld : s.held k = none := by
    refine hs.past _ k rfl ?_ ?_
    · cases k with
      | registration => exact absurd rfl hk
      | configuration | connection => rfl
    · cases k with
      | registration => exact absurd rfl hk
      | configuration | connection => rfl
  exact hs.closed hk hheld (hs.thread_grip hmutex rfl hopened hk) (if_neg hk) hlt

/-- **Children are closed before their registration**, and a connection is started with a
configuration that is open, in every run in which `main`'s `close` keeps apart from `connect`. -/
theorem children_first {s : State} (h : session.Reach Apart s) {a : Action} (ha : Apart s a) :
    s.ChildrenClosed a ∧ s.StartsConfigured a := by
  have hs := reach_ordered h
  have hmutex := (reach_slotted h).1.excludes
  obtain ⟨sh, t, router, kj, m⟩ := s
  refine ⟨fun r hr kind x hkind hlt _ => ?_, fun config hstart => ?_⟩
  · cases a with
    | thread ok => exact hs.thread_closes hmutex hr hkind hlt
    | main ok =>
      cases m with
      | closing p =>
        obtain rfl := ClosePc.mem_closeCall hr
        exact hs.main_closes hmutex rfl (by simpa [Apart, State.apart] using ha) hkind hlt
      | waiting | pumping | stopping | storeStop | joining | done => cases hr
    | router | kj | event | callback | signal => cases hr
  · cases a with
    | thread ok =>
      cases t with
      | connect p =>
        cases p with
        | startCall y config' =>
          obtain rfl := Option.some.inj hstart
          exact hs.starting y _ rfl
        | resetFlags | apiInit | openHandle | openCall | store | loadCredential | resolve |
          setParam | start | startConfig | handshake => cases hstart
      | close | install | check | clearDisc | sleep | post | await | advertise | wait | recheck |
        clearHandler | done => cases hstart
    | main | router | kj | event | callback | signal => cases hstart

/-- The first connection is up when `main` shuts down, and closes the registration. -/
theorem children_first_up : ∃ s : State, s.main = .closing (.reset .registration (.call 0)) ∧
    (s.shared.handles .connection 0).closed = true ∧
    (s.shared.handles .configuration 0).closed = true := by
  have hrun : (session.exec Apart session.init (upSteps ++ List.replicate 15 (.main false))).any
      (fun s => decide (s.main = .closing (.reset .registration (.call 0)) ∧
        s.apart (.main true) = true ∧ 0 < s.shared.next .connection ∧
        0 < s.shared.next .configuration ∧
        (s.shared.handles .connection 0).parent = some 0 ∧
        (s.shared.handles .configuration 0).parent = some 0)) = true := by
    decide
  obtain ⟨s, hreach, hmain, hapart, hconn, hconfig, hparent, hparent'⟩ :=
    Machine.exists_reach_of_exec hrun
  have hcall : (.registration, 0) ∈ s.closeCall (.main true) := by
    change (.registration, 0) ∈ s.main.closeCall
    rw [hmain]
    exact List.mem_singleton.mpr rfl
  have hclosed := (children_first hreach hapart).1 0 hcall
  exact ⟨s, hmain, hclosed .connection 0 nofun hconn hparent,
    hclosed .configuration 0 nofun hconfig hparent'⟩

/-- Where `main` does not keep apart, it closes a registration between the open of a configuration
and its store, and the thread starts a connection whose configuration `main` has taken away. -/
theorem children_first_fails :
    (∃ s a, session.Reachable s ∧ ¬s.ChildrenClosed a) ∧
      ∃ s a, session.Reachable s ∧ ¬s.StartsConfigured a := by
  constructor
  · have hrun : (session.exec (fun _ _ => True) session.init
        (threadSteps 20 ++ List.replicate 10 (.main false))).any
        (fun s => decide (s.main = .closing (.reset .registration (.call 0)) ∧
          0 < s.shared.next .configuration ∧
          (s.shared.handles .configuration 0).parent = some 0 ∧
          (s.shared.handles .configuration 0).closed = false)) = true := by
      decide
    obtain ⟨s, hreach, hmain, hlt, hparent, hopen⟩ := Machine.exists_reach_of_exec hrun
    refine ⟨s, .main true, hreach, fun hclosed => ?_⟩
    have hcall : (.registration, 0) ∈ s.closeCall (.main true) := by
      change (.registration, 0) ∈ s.main.closeCall
      rw [hmain]
      exact List.mem_singleton.mpr rfl
    cases hopen.symm.trans (hclosed 0 hcall .configuration 0 nofun hlt hparent)
  · have hrun : (session.exec (fun _ _ => True) session.init
        (threadSteps 30 ++ List.replicate 11 (.main false) ++ threadSteps 1)).any
        (fun s => decide (s.thread = .connect (.startCall (some 0) none))) = true := by
      decide
    obtain ⟨s, hreach, hthread⟩ := Machine.exists_reach_of_exec hrun
    refine ⟨s, .thread true, hreach, fun hstarts => ?_⟩
    have hstart : s.startsWith (.thread true) = some none := by
      simp only [State.startsWith, hthread]
    obtain ⟨c, hc, -⟩ := hstarts none hstart
    cases hc

end Cfd.Tunnel.Session
