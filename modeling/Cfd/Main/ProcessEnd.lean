import Cfd.Main.Inbound
import Mathlib.Algebra.Order.BigOperators.Group.Finset

/-!
# The end of the process

What `shutdown_all` of `src/main.cpp` achieves, for any number of clients. `main` closes the clients one
after the other, joins their threads, and stops the registration thread; what it leaves behind are locals
that others have pointers to: the router in the handlers of the clients, `disc_fired` of each thread in
its closure, `kj_queue`, the clients in its works.

`main_returned` is that nobody uses them any more: when `main` is done, nothing happens in the process
but signals. Behind that is how many steps the threads have left with `g_stop` set; where they end is
`Cfd.Main.Teardown`.
-/

set_option autoImplicit false

namespace Cfd.Main.Process

open Cfd.Base Cfd.Tunnel
open Session (Handle Shared ConnEvent ClosePc session closeStep deliver)

variable {n : Nat} {s s' : State n}

/-! ## When `main` is done -/

/-- How `main` leaves the router thread and the registration thread. -/
structure Settled (s : State n) : Prop where
  router : s.main ≠ .pumping → s.main ≠ .stopping → s.router = .idle
  kj : s.main = .done → s.kj = .exited
  stop : s.main = .joinKj → s.kjStop = true

theorem closeAll_ne (l : List (Fin n)) {m : MainPc n} (hm : m.ahead = [])
    (hjoining : m ≠ .joining []) : MainPc.closeAll l ≠ m := by
  rintro rfl
  cases l with
  | nil => exact hjoining (congrArg MainPc.joining hm)
  | cons i rest => cases hm

/-- `main` goes on, the router thread being idle. -/
theorem Settled.setMain (hrouter : s.router = .idle) {m : MainPc n} {stop down : Bool}
    (hdone : m = .done → s.kj = .exited) (hdown : m = .joinKj → down = true) :
    Settled { s with main := m, gStop := stop, kjStop := down } where
  router := fun _ _ => hrouter
  kj := hdone
  stop := hdown

theorem Moves.settled {a : Action n} (hs : Settled s) (h : Moves s a s') : Settled s' := by
  have hidle : ∀ {m : MainPc n}, s.main = m → m ≠ .pumping → m ≠ .stopping → s.router = .idle :=
    fun hm hpumping hstopping => hs.router (hm ▸ hpumping) (hm ▸ hstopping)
  have hkj : ∀ {k : KjPc n}, s.kj = k → k ≠ .exited → s.main ≠ .done :=
    fun hk hne hdone => hne (hk ▸ hs.kj hdone)
  cases h with
  | first hm =>
    refine Settled.setMain (hidle hm nofun nofun) (fun hdone => ?_) fun hjoin => ?_
    · split at hdone <;> cases hdone
    · split at hjoin <;> cases hjoin
  | leave => exact ⟨fun _ hne => absurd rfl hne, nofun, nofun⟩
  | stopped _ hrouter => exact Settled.setMain hrouter nofun nofun
  | storeStop hm =>
    exact Settled.setMain (hidle hm nofun nofun) (fun hdone => absurd hdone (closeAll_ne _ rfl nofun))
      fun hjoin => absurd hjoin (closeAll_ne _ rfl nofun)
  | @close _ i rest p sh q hm =>
    refine ⟨fun _ _ => hidle hm nofun nofun, fun hdone => ?_, fun hjoin => ?_⟩
    · cases q with
      | some p' => cases hdone
      | none => exact absurd hdone (closeAll_ne rest rfl nofun)
    · cases q with
      | some p' => cases hjoin
      | none => exact absurd hjoin (closeAll_ne rest rfl nofun)
  | joined hm | join hm => exact Settled.setMain (hidle hm nofun nofun) nofun nofun
  | stopKj hm => exact Settled.setMain (hidle hm nofun nofun) nofun fun _ => rfl
  | joinKj hm hexited => exact Settled.setMain (hidle hm nofun nofun) (fun _ => hexited) nofun
  | packet _ hm => exact { hs with router := fun hne _ => absurd hm hne }
  | send hrouter =>
    refine { hs with router := fun hpumping hstopping => ?_ }
    cases hrouter.symm.trans (hs.router hpumping hstopping)
  | sent => exact { hs with router := fun _ _ => rfl }
  | take hk | finish hk | serve hk => exact { hs with kj := fun hdone => absurd hdone (hkj hk nofun) }
  | drain => exact { hs with kj := fun _ => rfl }
  | thread | dropped | event | callback | datagram | decode | inject | signal => exact { hs with }

theorem settled_init : Settled (process n).init where
  router := fun _ _ => rfl
  kj := nofun
  stop := nofun

theorem reach_settled {guard : State n → Action n → Prop} (h : (process n).Reach guard s) :
    Settled s :=
  h.invariant settled_init fun _ _ _ _ _ hstep hs => (step_moves hstep).settled hs

/-- Events are delivered for connections that are open. -/
theorem deliver_open {sh sh' : Shared} {x : Handle} {e : ConnEvent} (h : deliver sh x e = some sh')
    (t : Session.ThreadPc) (m : Session.MainPc) : (sh.view t m).Open x := by
  simp only [deliver] at h
  split at h
  next => cases h
  next hnot =>
    simp only [not_or] at hnot
    exact ⟨Nat.lt_of_not_le hnot.1, Bool.not_eq_true _ ▸ hnot.2.1⟩

/-- No thread of a client runs, no connection of it is open, and no callback of one runs. -/
structure Gone (s : State n) (i : Fin n) : Prop where
  thread : (s.clients i).thread = .done
  closed : ∀ x, ¬(s.client i).view.Open x
  callback : ∀ x, ((s.shared i).conn x).callback = none
  inbound : ∀ x, (s.clients i).inbound x = none

theorem gone_of_thread (h : (process n).Reach Blocks s) {i : Fin n}
    (hdone : (s.clients i).thread = .done) : Gone s i := by
  have hclient := (client_refines i).reach h
  have hclosed : ∀ x, ¬(s.client i).view.Open x := by
    refine (Session.reach_tied hclient).2.emptied ?_
    show (s.clients i).thread.emptied = true
    rw [hdone]
    rfl
  refine ⟨hdone, hclosed, Session.idle_of_done hclient hdone, fun x => ?_⟩
  by_contra hrun
  exact hclosed x (reach_callbacks h i x hrun)

/-- Behind the end only the signal handler runs. -/
theorem step_of_done (h : (process n).Reach Blocks s) (hdone : s.main = .done) {a : Action n}
    (hstep : s.step a = some s') : a = .signal ∧ s' = { s with gStop := true } := by
  have hw := reach_wired h
  have hsettled := reach_settled h
  have hgone : ∀ i, Gone s i := fun i => gone_of_thread h (hw.joined i (hdone ▸ rfl))
  have hrouter := hsettled.router (hdone ▸ nofun) (hdone ▸ nofun)
  have hkj := hsettled.kj hdone
  have hmoves := step_moves hstep
  cases hmoves with
  | thread _ ht =>
    rw [(hgone _).thread] at ht
    cases ht
  | first hm | leave hm | stopped hm | storeStop hm | close hm => cases hdone.symm.trans hm
  | joined hm | join hm | stopKj hm | joinKj hm => cases hdone.symm.trans hm
  | packet _ hm | dropped hm => cases hdone.symm.trans hm
  | send hr | sent hr => cases hrouter.symm.trans hr
  | take hk | finish hk | serve hk | drain hk => cases hkj.symm.trans hk
  | event _ hdeliver => exact absurd (deliver_open hdeliver _ _) ((hgone _).closed _)
  | callback hcallback =>
    simp only [Session.callbackStep, (hgone _).callback] at hcallback
    cases hcallback
  | datagram hopen => exact absurd hopen ((hgone _).closed _)
  | decode hpc | inject hpc => cases ((hgone _).inbound _).symm.trans hpc
  | signal => exact ⟨rfl, rfl⟩

/-- **When `main` is done, nothing happens any more.** Every connection thread has returned, every
connection is closed, no callback runs, neither does the router thread nor the registration thread, the
queue is empty; and a run that goes on from there consists of signals and leaves everything as it is. -/
theorem main_returned (h : (process n).Reach Blocks s) (hdone : s.main = .done) :
    (∀ i, Gone s i) ∧ s.router = .idle ∧ s.kj = .exited ∧ s.queue = [] ∧
      ∀ history t, ((process n).after s).Run Blocks history t →
        (∀ x ∈ history, x.2 = .signal) ∧ t = { s with gStop := t.gStop } := by
  have hw := reach_wired h
  have hkj := (reach_settled h).kj hdone
  refine ⟨fun i => gone_of_thread h (hw.joined i (hdone ▸ rfl)),
    (reach_settled h).router (hdone ▸ nofun) (hdone ▸ nofun), hkj, (hw.past (Or.inr hkj)).2, ?_⟩
  intro history t hrun
  induction hrun with
  | init =>
    refine ⟨fun x hx => absurd hx List.not_mem_nil, ?_⟩
    show s = { s with gStop := s.gStop }
    rfl
  | @step history t t' a hrun _ hstep ih =>
    obtain ⟨hsignals, ht⟩ := ih
    have htdone : t.main = .done := by
      rw [ht]
      exact hdone
    obtain ⟨rfl, rfl⟩ := step_of_done (h.trans hrun.reach) htdone hstep
    refine ⟨fun x hx => ?_, ?_⟩
    · rcases List.mem_append.mp hx with hold | hnew
      · exact hsignals x hold
      · rw [List.mem_singleton.mp hnew]
    · rw [ht]

/-- A client comes up, and another has not begun; the process is shut down. -/
def returnSteps (i j : Fin n) : List (Action n) :=
  Session.upSteps.map (asClient i) ++ [.signal] ++ List.replicate 20 (.thread i true) ++
    List.replicate 12 (.thread j true) ++ List.replicate 24 (.main false) ++
    List.replicate 2 (.kj true) ++ [.main false]

theorem main_returned_two : ∃ s, (process 2).Reach Blocks s ∧ s.main = .done ∧ (∀ i, Gone s i) ∧
    ∀ history t, ((process 2).after s).Run Blocks history t → ∀ x ∈ history, x.2 = .signal := by
  have hexec : ((process 2).exec Blocks (process 2).init (returnSteps 0 1)).any (fun s =>
      decide (s.main = .done)) = true := by decide
  obtain ⟨s, hs, hdone⟩ := Machine.exists_reach_of_exec hexec
  obtain ⟨hgone, -, -, -, hlater⟩ := main_returned hs hdone
  exact ⟨s, hs, hdone, hgone, fun history t hrun => (hlater history t hrun).1⟩

/-! ## The steps that are left -/

/-- How many steps `main` has left that are about no client. -/
def MainPc.todo : MainPc n → Nat
  | .waiting => 7
  | .pumping => 6
  | .stopping => 5
  | .storeStop => 4
  | .closing _ _ _ | .joining _ => 3
  | .stopKj => 2
  | .joinKj => 1
  | .done => 0

/-- How many steps the registration thread has left that are about no client. -/
def KjPc.todo : KjPc n → Nat
  | .acquire | .serving _ _ => 2
  | .draining => 1
  | .exited => 0

/-- The steps that are left to the connection threads, `main` and the registration thread. -/
def State.todo (s : State n) : Nat :=
  ∑ i, (s.client i).todo + (s.main.todo + s.kj.todo)

/-- A step of one of these threads. -/
def Action.ofThreads : Action n → Bool
  | .thread _ _ | .main _ | .kj _ => true
  | _ => false

theorem todo_closeAll (l : List (Fin n)) : (MainPc.closeAll l).todo = 3 := by
  cases l <;> rfl

/-- What a client sees of a step is one of the steps that are left to it. -/
theorem client_todo {a : Action n} (hw : Wired s) (hstop : s.gStop = true) (h : Moves s a s') (i : Fin n) :
    (s'.client i).todo + (if (s.seen i a).any Session.Action.ofThreads then 1 else 0) ≤
      (s.client i).todo := by
  have hfollows := h.follows hw i
  cases hb : s.seen i a with
  | none =>
    rw [hb] at hfollows
    exact Nat.le_of_eq (congrArg Session.State.todo hfollows)
  | some b =>
    rw [hb] at hfollows
    exact (Session.step_todo hstop hfollows).2

/-- The clients together: a step that one of them sees as a step of a thread is one of those left. -/
theorem clients_todo {a : Action n} (hw : Wired s) (hstop : s.gStop = true) (h : Moves s a s') :
    ∑ i, (s'.client i).todo ≤ ∑ i, (s.client i).todo ∧
      ∀ i b, s.seen i a = some b → b.ofThreads = true →
        ∑ i, (s'.client i).todo + 1 ≤ ∑ i, (s.client i).todo := by
  have hle : ∀ i, (s'.client i).todo ≤ (s.client i).todo :=
    fun i => Nat.le_trans (Nat.le_add_right _ _) (client_todo hw hstop h i)
  refine ⟨Finset.sum_le_sum fun i _ => hle i, fun i b hb hthreads => ?_⟩
  refine Finset.sum_lt_sum (fun i _ => hle i) ⟨i, Finset.mem_univ i, ?_⟩
  have hlower := client_todo hw hstop h i
  rwa [hb, Option.any_some, hthreads, if_pos rfl] at hlower

/-- **With `g_stop` set, a step of the threads is one of those that were left**, and nobody else adds to
them. -/
theorem Moves.todo {a : Action n} (hw : Wired s) (hstop : s.gStop = true) (h : Moves s a s') :
    s'.gStop = true ∧ s'.todo + (if a.ofThreads then 1 else 0) ≤ s.todo := by
  obtain ⟨hall, hseen⟩ := clients_todo hw hstop h
  -- the step of a thread is seen by a client, or is one that is about none
  have hcount : ∀ {m m' k k' : Nat}, s.main.todo = m → s'.main.todo = m' → s.kj.todo = k →
      s'.kj.todo = k' → (m' + k' + (if a.ofThreads then 1 else 0) ≤ m + k ∨
        m' + k' ≤ m + k ∧ ∃ i b, s.seen i a = some b ∧ b.ofThreads = true) →
      s'.todo + (if a.ofThreads then 1 else 0) ≤ s.todo := by
    rintro m m' k k' rfl rfl rfl rfl (hown | ⟨hown, i, b, hb, hthreads⟩)
    · unfold State.todo
      omega
    · have hlower := hseen i b hb hthreads
      unfold State.todo
      split <;> omega
  cases h with
  | @thread i ok => exact ⟨hstop, hcount rfl rfl rfl rfl (Or.inr ⟨Nat.le_refl _, i, .thread ok, if_pos rfl, rfl⟩)⟩
  | first hm =>
    refine ⟨hstop, hcount (congrArg _ hm) rfl rfl rfl (Or.inl ?_)⟩
    show MainPc.todo (ite _ _ _) + _ + 1 ≤ _
    split <;> simp only [MainPc.todo] <;> omega
  | leave hm | stopped hm | joined hm | stopKj hm | joinKj hm =>
    refine ⟨hstop, hcount (congrArg _ hm) rfl rfl rfl (Or.inl ?_)⟩
    show _ + _ + 1 ≤ _
    simp only [MainPc.todo]
    omega
  | storeStop hm =>
    refine ⟨rfl, hcount (congrArg _ hm) (todo_closeAll _) rfl rfl (Or.inl ?_)⟩
    show _ + _ + 1 ≤ _
    simp only [MainPc.todo]
    omega
  | @close ok i rest p sh q hm =>
    have hsame : (q.elim (.closeAll rest) (.closing i rest) : MainPc n).todo = 3 := by
      cases q with
      | some p' => rfl
      | none => exact todo_closeAll rest
    refine ⟨hstop, hcount (congrArg _ hm) hsame rfl rfl (Or.inr ⟨Nat.le_refl _, i, .main ok, ?_, rfl⟩)⟩
    simp only [State.seen, hm, MainPc.about, decide_true, if_true]
  | @join ok i rest hm =>
    refine ⟨hstop, hcount (congrArg _ hm) rfl rfl rfl (Or.inr ⟨Nat.le_refl _, i, .main ok, ?_, rfl⟩)⟩
    simp only [State.seen, hm, MainPc.about, decide_true, if_true]
  | @take ok i rest hkj hqueue =>
    refine ⟨hstop, hcount rfl rfl (congrArg _ hkj) rfl (Or.inr ⟨Nat.le_refl _, i, .kj ok, ?_, rfl⟩)⟩
    simp only [State.seen, State.serves, hkj, hqueue, List.head?_cons, decide_true, if_true]
  | @serve ok i p k sh hkj =>
    have hafter : (if k = .idle then .acquire else .serving i k : KjPc n).todo = 2 := by
      split <;> rfl
    refine ⟨hstop, hcount rfl rfl (congrArg _ hkj) hafter
      (Or.inr ⟨Nat.le_refl _, i, .kj ok, ?_, rfl⟩)⟩
    simp only [State.seen, State.serves, hkj, decide_true, if_true]
  | finish hkj | drain hkj =>
    refine ⟨hstop, hcount rfl rfl (congrArg _ hkj) rfl (Or.inl ?_)⟩
    show _ + _ + 1 ≤ _
    simp only [KjPc.todo]
    omega
  | packet | dropped | send | sent | event | callback | datagram | decode | inject =>
    exact ⟨hstop, hcount rfl rfl rfl rfl (Or.inl (Nat.le_refl _))⟩
  | signal => exact ⟨rfl, hcount rfl rfl rfl rfl (Or.inl (Nat.le_refl _))⟩

theorem State.todo_le (s : State n) : s.todo ≤ 122 * n + 9 := by
  have hclients : ∑ i, (s.client i).todo ≤ ∑ _i : Fin n, 122 :=
    Finset.sum_le_sum fun i _ => (s.client i).todo_le
  have hmain : s.main.todo ≤ 7 := by cases s.main <;> simp only [MainPc.todo] <;> omega
  have hkj : s.kj.todo ≤ 2 := by cases s.kj <;> simp only [KjPc.todo] <;> omega
  rw [Finset.sum_const_nat fun _ _ => rfl, Finset.card_univ, Fintype.card_fin] at hclients
  unfold State.todo
  omega

end Cfd.Main.Process
