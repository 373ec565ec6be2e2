import Cfd.Main.ClientView
import Cfd.Main.Served

/-!
# The queue in the process

The registration queue was studied on its own, with threads that post and wait and nothing else. Every
run of the process has a run of that queue beside it (`queue_simulated`): its threads post when the
connection threads of the process do, its registration thread answers what the clients' registrations came
to, and `main` stops it when the process does.

What is proved of the queue then holds of the process, for any number of clients and whatever the
registrations are about: the works are answered in the order in which they were posted, each once, and a
connection thread goes on with the outcome of its own.
-/

set_option autoImplicit false

namespace Cfd.Main.Process

open Cfd.Base Cfd.Tunnel
open Session (Handle Shared ClosePc)
open RegQueue (RegWork registrations)

variable {n : Nat} {ρ : Type} {s s' : State n} {q q' : RegQueue.State (Fin n) ρ Bool}

/-! ## The last work of a thread -/

/-- A blocked thread waits for the last of its works. -/
theorem awaited_last {request : Fin n → ρ} (h : (registrations request false).Reachable q) :
    ∀ i p, q.threads i = .awaiting p → ∀ w ∈ q.posted, w.cl = i → w.promise ≤ p := by
  refine h.invariant (I := fun q => ∀ i p, q.threads i = .awaiting p → ∀ w ∈ q.posted,
    w.cl = i → w.promise ≤ p) (by exact fun i p hp => nomatch hp) fun q b q' hq _ hstep ih => ?_
  have hkeep : (∀ i p, q'.threads i = .awaiting p → q.threads i = .awaiting p) →
      q'.posted = q.posted → ∀ i p, q'.threads i = .awaiting p → ∀ w ∈ q'.posted,
        w.cl = i → w.promise ≤ p := by
    intro hthreads hposted i p hp w hw hcl
    exact ih i p (hthreads i p hp) w (hposted ▸ hw) hcl
  cases RegQueue.step_moves hstep with
  | @post j hj =>
    intro i p hp w hw hcl
    change Function.update q.threads j _ i = _ at hp
    rcases List.mem_append.mp hw with hold | hnew
    · by_cases hij : i = j
      · -- its earlier works have smaller numbers
        rw [hij, Function.update_self] at hp
        cases hp
        have hnumber : w.promise ∈ q.posted.map RegWork.promise := List.mem_map_of_mem hold
        rw [(RegQueue.posted hq).numbered] at hnumber
        exact (List.mem_range.mp hnumber).le
      · rw [Function.update_of_ne hij] at hp
        exact ih i p hp w hold hcl
    · obtain rfl := List.mem_singleton.mp hnew
      obtain rfl : j = i := hcl
      rw [Function.update_self] at hp
      cases hp
      exact Nat.le_refl _
  | resume | exit => exact hkeep (fun _ _ => RegQueue.awaiting_of_update (by rintro _ ⟨⟩)) rfl
  | take | stop | block | answer | drain | spurious | begin | join | notify | joined =>
    exact hkeep (fun _ _ hp => hp) rfl

/-! ## The picture -/

/-- Where `main` stands with the queue. -/
def MainPc.inQueue : MainPc n → RegQueue.MainPc
  | .joinKj => .joiningKj
  | .done => .done
  | _ => .running

/-- Where the registration thread stands with the queue: in `register_connection` it is in one place. -/
def SamePlace : KjPc n → RegQueue.KjPc (Fin n) ρ → Prop
  | .acquire, .acquire | .draining, .draining | .exited, .exited => True
  | .serving i _, .serving w => w.cl = i
  | _, _ => False

/-- The queue on its own is a picture of the process. -/
structure Pictures (s : State n) (q : RegQueue.State (Fin n) ρ Bool) : Prop where
  queue : q.queue.map RegWork.cl = s.queue
  kj : SamePlace s.kj q.kj
  kjStop : q.kjStop = s.kjStop
  main : q.main = s.main.inQueue
  running : ∀ i, (s.clients i).thread ≠ .await → (s.clients i).thread ≠ .done →
    q.threads i = .running
  awaiting : ∀ i, (s.clients i).thread = .await → ∃ p, q.threads i = .awaiting p ∧
    ∀ ok, (s.clients i).shared.future = .answered ok → (p, ok) ∈ q.promises
  exited : ∀ i, (s.clients i).thread = .done → q.threads i = .exited
  waited : ∀ w ∈ q.kj.inHand ++ q.queue, q.threads w.cl = .awaiting w.promise

/-- The clients that post a work, and the works that are answered, with the outcome. -/
def posts (s : State n) : Action n → List (Fin n)
  | .thread i _ => if (s.clients i).thread = .post then [i] else []
  | _ => []

def answers (s : State n) : Action n → List (Fin n × Bool)
  | .kj _ =>
    match s.kj with
    | .serving i (.answer ok) => [(i, ok)]
    | _ => []
  | _ => []

/-- What is in hand in the queue on its own. -/
def KjPc.inHand : KjPc n → List (Fin n)
  | .serving i _ => [i]
  | _ => []

theorem SamePlace.inHand {k : KjPc n} {k' : RegQueue.KjPc (Fin n) ρ} (h : SamePlace k k') :
    k'.inHand.map RegWork.cl = k.inHand := by
  cases k <;> cases k' <;> first | exact h.elim | rfl | exact congrArg (· :: []) h

/-- A step that is nothing to the queue. -/
theorem Pictures.quiet (hp : Pictures s q)
    (hclients : ∀ i, (s'.clients i).thread = (s.clients i).thread ∧
      (s'.clients i).shared.future = (s.clients i).shared.future)
    (hqueue : s'.queue = s.queue) (hkj : SamePlace s.kj q.kj → SamePlace s'.kj q.kj)
    (hstop : s'.kjStop = s.kjStop) (hmain : s'.main.inQueue = s.main.inQueue) : Pictures s' q where
  queue := hp.queue.trans hqueue.symm
  kj := hkj hp.kj
  kjStop := hp.kjStop.trans hstop.symm
  main := hp.main.trans hmain.symm
  running i hne hne' := hp.running i ((hclients i).1 ▸ hne) ((hclients i).1 ▸ hne')
  awaiting i hi := by
    obtain ⟨p, hthread, hpromise⟩ := hp.awaiting i ((hclients i).1.symm.trans hi)
    exact ⟨p, hthread, fun ok hok => hpromise ok ((hclients i).2.symm.trans hok)⟩
  exited i hi := hp.exited i ((hclients i).1.symm.trans hi)
  waited := hp.waited

/-- The members of a client change, and neither its future nor its thread's position. -/
theorem same_setClient (s : State n) {i : Fin n} {c : Client} (hthread : c.thread = (s.clients i).thread)
    (hfuture : c.shared.future = (s.clients i).shared.future) (j : Fin n) :
    ((s.setClient i c).clients j).thread = (s.clients j).thread ∧
      ((s.setClient i c).clients j).shared.future = (s.clients j).shared.future :=
  ⟨setClient_same Client.thread s hthread j, setClient_same (·.shared.future) s hfuture j⟩

/-- The thread of one client moves, and so does its picture. -/
theorem Pictures.move (hp : Pictures s q) {i : Fin n} {c : Client} {queue : List (Fin n)}
    {pc : RegQueue.ThreadPc} (hthreads : q'.threads = Function.update q.threads i pc)
    (hpromises : q'.promises = q.promises) (hstop : q'.kjStop = q.kjStop) (hmain : q'.main = q.main)
    (hkj : SamePlace s.kj q'.kj) (hqueue : q'.queue.map RegWork.cl = queue)
    (hrunning : c.thread ≠ .await → c.thread ≠ .done → pc = .running)
    (hawaiting : c.thread = .await → ∃ p, pc = .awaiting p ∧
      ∀ ok, c.shared.future = .answered ok → (p, ok) ∈ q.promises)
    (hexited : c.thread = .done → pc = .exited)
    (hwaited : ∀ w ∈ q'.kj.inHand ++ q'.queue, q'.threads w.cl = .awaiting w.promise) :
    Pictures { s.setClient i c with queue } q' := by
  have hself : q'.threads i = pc := by rw [hthreads, Function.update_self]
  have hother : ∀ j, j ≠ i → q'.threads j = q.threads j := fun j hj => by
    rw [hthreads, Function.update_of_ne hj]
  refine ⟨hqueue, hkj, hstop.trans hp.kjStop, hmain.trans hp.main, fun j => ?_, fun j => ?_,
    fun j => ?_, hwaited⟩
  · show ((s.setClient i c).clients j).thread ≠ .await → ((s.setClient i c).clients j).thread ≠ .done → _
    rw [clients_setClient]
    split
    next hji => exact fun hne hne' => hji ▸ hself.trans (hrunning hne hne')
    next hji => exact fun hne hne' => (hother j hji).trans (hp.running j hne hne')
  · show ((s.setClient i c).clients j).thread = .await → ∃ p, q'.threads j = .awaiting p ∧
      ∀ ok, ((s.setClient i c).clients j).shared.future = .answered ok → (p, ok) ∈ q'.promises
    rw [clients_setClient, hpromises]
    split
    next hji =>
      intro hawait
      obtain ⟨p, hpc, hpromise⟩ := hawaiting hawait
      exact ⟨p, hji ▸ hself.trans hpc, hpromise⟩
    next hji =>
      intro hawait
      obtain ⟨p, hpc, hpromise⟩ := hp.awaiting j hawait
      exact ⟨p, (hother j hji).trans hpc, hpromise⟩
  · show ((s.setClient i c).clients j).thread = .done → _
    rw [clients_setClient]
    split
    next hji => exact fun hdone => hji ▸ hself.trans (hexited hdone)
    next hji => exact fun hdone => (hother j hji).trans (hp.exited j hdone)

theorem SamePlace.wake {k : KjPc n} {k' : RegQueue.KjPc (Fin n) ρ} (h : SamePlace k k') :
    k'.wake = k' := by
  cases k' with
  | blocked => cases k <;> exact h.elim
  | acquire | serving | draining | exited => rfl

/-- What answers a step of the process: steps of the queue, with the posts and the calls that are in
it. -/
def Answered (request : Fin n → ρ) (s s' : State n) (a : Action n) (q : RegQueue.State (Fin n) ρ Bool) :
    Prop :=
  ∃ more q', (registrations request false).Leads (fun _ _ => True) q more q' ∧ Pictures s' q' ∧
    q'.posted.map RegWork.cl = q.posted.map RegWork.cl ++ posts s a ∧
    (RegQueue.calls more).map (fun c => (c.cl, c.result)) = answers s a

variable {request : Fin n → ρ} {a : Action n}

/-- A step that the queue does not see. -/
theorem Answered.stay (hp : Pictures s' q) (hposts : posts s a = []) (hanswers : answers s a = []) :
    Answered request s s' a q :=
  ⟨[], q, Machine.Leads.refl q, hp, by rw [hposts, List.append_nil], by rw [hanswers]; rfl⟩

/-- A step that is one step of the queue. -/
theorem Answered.step (b : RegQueue.Action (Fin n) Bool) (q' : RegQueue.State (Fin n) ρ Bool)
    (hstep : (registrations request false).step q b = some q') (hp : Pictures s' q')
    (hposts : q'.posted.map RegWork.cl = q.posted.map RegWork.cl ++ posts s a)
    (hanswers : (q.call b).map (fun c => (c.cl, c.result)) = answers s a) :
    Answered request s s' a q := by
  refine ⟨[(q, b)], q', Machine.Leads.step trivial hstep, hp, hposts, ?_⟩
  rw [← hanswers]
  simp [RegQueue.calls, Machine.emitted]

/-- A thread that waits goes on to be served, or to give up. -/
theorem threadStep_await_ne_done {sh sh' : Shared} {ok : Bool} {t : Session.ThreadPc}
    (h : Session.threadStep sh ok .await = some (sh', t)) : t ≠ .done := by
  simp only [Session.threadStep] at h
  split at h <;> cases h <;> simp

/-- A connection thread moves. -/
theorem answered_thread (hw : Wired s) (hp : Pictures s q) {i : Fin n} {ok : Bool} {sh : Shared}
    {t : Session.ThreadPc} (h : Session.threadStep (s.shared i) ok (s.clients i).thread = some (sh, t)) :
    Answered request s { s.setClient i { s.clients i with shared := sh, thread := t } with
      queue := if (s.clients i).thread = .post then s.queue ++ [i] else s.queue } (.thread i ok) q := by
  have hnotDone : (s.clients i).thread ≠ .done := by
    intro hdone
    rw [hdone] at h
    cases h
  have hposts : posts s (.thread i ok) = if (s.clients i).thread = .post then [i] else [] := rfl
  rcases Session.threadStep_future h with ⟨hpost, rfl, hfuture⟩ | ⟨hawait, hne, ⟨ok', hanswered⟩, hnone⟩ |
    ⟨hne, hne', hsame⟩
  · -- it posts its work
    have hrunning : q.threads i = .running :=
      hp.running i (by simp [hpost]) hnotDone
    refine Answered.step (.post i) { q with
      threads := Function.update q.threads i (.awaiting q.posted.length)
      posted := q.posted ++ [⟨i, request i, q.posted.length⟩]
      queue := q.queue ++ [⟨i, request i, q.posted.length⟩]
      kj := q.kj.wake } ?_ ?_ ?_ rfl
    · simp only [registrations, hrunning]
    · refine hp.move rfl rfl rfl rfl ?_ ?_ (fun hne => absurd rfl hne)
        (fun _ => ⟨q.posted.length, rfl, fun ok hok => ?_⟩) (by simp) fun w hin => ?_
      · show SamePlace s.kj q.kj.wake
        rw [hp.kj.wake]
        exact hp.kj
      · show (q.queue ++ _).map _ = _
        rw [List.map_append, hp.queue, if_pos hpost]
        rfl
      · cases hfuture.symm.trans hok
      · show Function.update q.threads i _ w.cl = _
        change w ∈ q.kj.wake.inHand ++ (q.queue ++ _) at hin
        rw [hp.kj.wake, ← List.append_assoc] at hin
        rcases List.mem_append.mp hin with hold | hnew
        · have hwait := hp.waited w hold
          have hwi : w.cl ≠ i := by
            intro heq
            rw [heq, hrunning] at hwait
            cases hwait
          rw [Function.update_of_ne hwi]
          exact hwait
        · obtain rfl := List.mem_singleton.mp hnew
          exact Function.update_self ..
    · rw [hposts, if_pos hpost]
      exact List.map_append
  · -- it goes on with the outcome
    obtain ⟨p, hpc, hpromise⟩ := hp.awaiting i hawait
    have hset : p ∈ q.promises.map Prod.fst :=
      List.mem_map.mpr ⟨(p, ok'), hpromise ok' hanswered, rfl⟩
    have hne' : t ≠ .done := by
      rw [hawait] at h
      exact threadStep_await_ne_done h
    have hpost : (s.clients i).thread ≠ .post := by simp [hawait]
    refine Answered.step (.resume i)
      { q with threads := Function.update q.threads i .running } ?_ ?_ ?_ rfl
    · simp only [registrations, hpc, if_pos hset]
    · rw [if_neg hpost]
      refine hp.move rfl rfl rfl rfl hp.kj hp.queue (fun _ _ => rfl) (fun h => absurd h hne)
        (fun h => absurd h hne') fun w hin => ?_
      have hwi : w.cl ≠ i := by
        rintro rfl
        rcases List.mem_append.mp hin with hhand | hqueue
        · have hserving : w.cl ∈ s.kj.inHand := hp.kj.inHand ▸ List.mem_map_of_mem hhand
          cases hkj : s.kj with
          | serving j p =>
            rw [hkj] at hserving
            obtain rfl : w.cl = j := List.mem_singleton.mp hserving
            cases hanswered.symm.trans (hw.serving _ p hkj).2
          | acquire | draining | exited =>
            rw [hkj] at hserving
            cases hserving
        · have hin : w.cl ∈ s.queue := hp.queue ▸ List.mem_map_of_mem hqueue
          cases hanswered.symm.trans (hw.waiting _ hin).2
      show Function.update q.threads i _ w.cl = _
      rw [Function.update_of_ne hwi]
      exact hp.waited w hin
    · rw [hposts, if_neg hpost, List.append_nil]
  · -- it stays clear of the queue, or returns
    have hpost : (s.clients i).thread ≠ .post := by
      intro hpost
      rw [hpost] at h
      cases h
      exact hne' rfl
    have hrunning : q.threads i = .running := hp.running i hne hnotDone
    have hwaited : ∀ (pc : RegQueue.ThreadPc), ∀ w ∈ q.kj.inHand ++ q.queue,
        Function.update q.threads i pc w.cl = .awaiting w.promise := by
      intro pc w hin
      have hwait := hp.waited w hin
      have hwi : w.cl ≠ i := by
        intro heq
        rw [heq, hrunning] at hwait
        cases hwait
      rw [Function.update_of_ne hwi]
      exact hwait
    rw [if_neg hpost]
    by_cases hdone : t = .done
    · refine Answered.step (.exit i)
        { q with threads := Function.update q.threads i .exited } ?_ ?_ ?_ rfl
      · simp only [registrations, hrunning]
      · exact hp.move rfl rfl rfl rfl hp.kj hp.queue (fun _ hne => absurd hdone hne)
          (fun h => absurd h hne') (fun _ => rfl) (hwaited _)
      · rw [hposts, if_neg hpost, List.append_nil]
    · refine Answered.stay ?_ (by rw [hposts, if_neg hpost]) rfl
      have hself : q.threads = Function.update q.threads i .running := by
        rw [← hrunning, Function.update_eq_self]
      exact hp.move hself rfl rfl rfl hp.kj hp.queue (fun _ _ => rfl) (fun h => absurd h hne')
        (fun h => absurd h hdone) hp.waited

/-- The registration thread takes a work. -/
theorem answered_take (hp : Pictures s q) {i : Fin n} {rest : List (Fin n)} {ok : Bool}
    (hkj : s.kj = .acquire) (hqueue : s.queue = i :: rest) :
    Answered request s
      { s.setClient i { s.clients i with shared := { s.shared i with future := .taken } } with
        queue := rest
        kj := .serving i (.registering .guardConnection) } (.kj ok) q := by
  obtain ⟨w, works, hworks, rfl, hrest⟩ := List.map_eq_cons_iff.mp (hp.queue.trans hqueue)
  have hplace : q.kj = .acquire := by
    have hk := hkj ▸ hp.kj
    cases hq : q.kj <;> rw [hq] at hk <;> first | rfl | exact hk.elim
  refine Answered.step (.kj ok) { q with kj := .serving w, queue := works } ?_ ?_ ?_ ?_
  · show q.kjStep false ok = _
    rw [RegQueue.State.kjStep, hplace, hworks]
  · have hwait := hp.waited w (by rw [hworks]; exact List.mem_append_right _ List.mem_cons_self)
    have hclients : ∀ j, ((s.setClient w.cl { s.clients w.cl with
        shared := { s.shared w.cl with future := .taken } }).clients j).thread = (s.clients j).thread :=
      setClient_same Client.thread s rfl
    refine ⟨hrest, rfl, hp.kjStop, hp.main, fun j hne hne' => ?_, fun j hj => ?_, fun j hj => ?_,
      fun v hv => ?_⟩
    · exact hp.running j (hclients j ▸ hne) (hclients j ▸ hne')
    · obtain ⟨p, hpc, hpromise⟩ := hp.awaiting j ((hclients j).symm.trans hj)
      refine ⟨p, hpc, fun ok hok => ?_⟩
      change ((s.setClient w.cl _).clients j).shared.future = _ at hok
      rw [clients_setClient] at hok
      split at hok
      next => cases hok
      next => exact hpromise ok hok
    · exact hp.exited j ((hclients j).symm.trans hj)
    · rcases List.mem_append.mp hv with hhand | hlater
      · rw [List.mem_singleton.mp hhand]
        exact hwait
      · exact hp.waited v (by rw [hworks]; exact List.mem_append_right _ (List.mem_cons_of_mem w hlater))
  · exact (List.append_nil _).symm
  · rw [RegQueue.State.call, hplace]
    simp only [answers, hkj, List.map_nil]

/-- The registration thread goes on with a work, or answers it. -/
theorem answered_serve (hw : Wired s) (hp : Pictures s q) {i : Fin n} {p k : Session.KjPc} {sh : Shared}
    {ok : Bool} (hkj : s.kj = .serving i p) (h : Session.kjStep (s.shared i) ok p = some (sh, k)) :
    Answered request s { s.setClient i { s.clients i with shared := sh } with
      kj := if k = .idle then .acquire else .serving i k } (.kj ok) q := by
  obtain ⟨hawait, htaken⟩ := hw.serving i p hkj
  obtain ⟨w, hplace, hcl⟩ : ∃ w, q.kj = .serving w ∧ w.cl = i := by
    have hk := hkj ▸ hp.kj
    cases hq : q.kj with
    | serving w =>
      rw [hq] at hk
      exact ⟨w, rfl, hk⟩
    | acquire | blocked | draining | exited =>
      rw [hq] at hk
      exact hk.elim
  subst hcl
  have hwait : q.threads w.cl = .awaiting w.promise :=
    hp.waited w (by rw [hplace]; exact List.mem_append_left _ List.mem_cons_self)
  rcases Session.kjStep_future h with ⟨-, -, hposted, -⟩ | ⟨hne, rfl, ok', hanswered⟩ | ⟨hne, hne', hsame⟩
  · cases htaken.symm.trans hposted
  · -- the promise is set
    obtain ⟨rfl, rfl⟩ : p = .answer ok' ∧ sh = { s.shared w.cl with future := .answered ok' } := by
      cases p with
      | idle => exact absurd rfl hne
      | answer b =>
        cases h
        cases hanswered
        exact ⟨rfl, rfl⟩
      | rpc => cases h
      | registering p =>
        simp only [Session.kjStep] at h
        split at h <;> cases h
    refine Answered.step (.kj ok')
      { q with kj := .acquire, promises := q.promises ++ [(w.promise, ok')] } ?_ ?_ ?_ ?_
    · show q.kjStep false ok' = _
      rw [RegQueue.State.kjStep, hplace]
    · have hclients : ∀ j, ((s.setClient w.cl { s.clients w.cl with
          shared := { s.shared w.cl with future := .answered ok' } }).clients j).thread =
            (s.clients j).thread := setClient_same Client.thread s rfl
      refine ⟨hp.queue, trivial, hp.kjStop, hp.main, fun j hj hj' => ?_, fun j hj => ?_,
        fun j hj => ?_, fun v hv => ?_⟩
      · exact hp.running j (hclients j ▸ hj) (hclients j ▸ hj')
      · obtain ⟨p, hpc, hpromise⟩ := hp.awaiting j ((hclients j).symm.trans hj)
        refine ⟨p, hpc, fun ok hok => ?_⟩
        change ((s.setClient w.cl _).clients j).shared.future = _ at hok
        rw [clients_setClient] at hok
        split at hok
        next hjw =>
          cases hok
          obtain rfl : w.promise = p := by
            rw [hjw, hwait] at hpc
            cases hpc
            rfl
          exact List.mem_append_right _ List.mem_cons_self
        next => exact List.mem_append_left _ (hpromise ok hok)
      · exact hp.exited j ((hclients j).symm.trans hj)
      · exact hp.waited v (List.mem_append_right _ hv)
    · exact (List.append_nil _).symm
    · rw [RegQueue.State.call, hplace]
      simp only [answers, hkj]
      rfl
  · -- in `register_connection` it is in one place
    rw [if_neg hne']
    refine Answered.stay ?_ rfl ?_
    · refine hp.quiet (same_setClient s rfl hsame) rfl (fun _ => ?_) rfl rfl
      rw [hplace]
      rfl
    · simp only [answers, hkj]
      cases p with
      | answer b =>
        cases h
        exact absurd rfl hne'
      | idle | registering | rpc => rfl

/-- `main` stops the registration thread: in the queue on its own it has still to join the threads. -/
theorem answered_stopKj (hw : Wired s) (hp : Pictures s q) (hm : s.main = .stopKj) {ok : Bool} :
    Answered request s { s with kjStop := true, main := .joinKj } (.main ok) q := by
  have hrunning : q.main = .running := by rw [hp.main, hm]; rfl
  have hexited : ∀ i, q.threads i = .exited := fun i => hp.exited i (hw.joined i (hm ▸ rfl))
  let q₁ : RegQueue.State (Fin n) ρ Bool := { q with main := .joiningThreads }
  let q₂ : RegQueue.State (Fin n) ρ Bool := { q with main := .notifying, kjStop := true }
  let q₃ : RegQueue.State (Fin n) ρ Bool :=
    { q with main := .joiningKj, kjStop := true, kj := q.kj.wake }
  have hfirst : (registrations request false).step q .main = some q₁ := by
    show q.mainStep = _
    rw [RegQueue.State.mainStep, hrunning]
  have hsecond : (registrations request false).step q₁ .main = some q₂ := if_pos hexited
  have hthird : (registrations request false).step q₂ .main = some q₃ := rfl
  refine ⟨[(q, .main)] ++ [(q₁, .main)] ++ [(q₂, .main)], q₃, ?_, ?_, ?_, rfl⟩
  · exact ((Machine.Leads.step trivial hfirst).trans (Machine.Leads.step trivial hsecond)).trans
      (Machine.Leads.step trivial hthird)
  · have hwake : q₃.kj = q.kj := hp.kj.wake
    refine ⟨hp.queue, ?_, rfl, rfl, hp.running, hp.awaiting, hp.exited, ?_⟩
    · rw [hwake]
      exact hp.kj
    · rw [hwake]
      exact hp.waited
  · exact (List.append_nil _).symm

/-- **Every step of the process is answered by the queue.** -/
theorem Moves.answered (request : Fin n → ρ) (hw : Wired s) (hp : Pictures s q) (h : Moves s a s') :
    Answered request s s' a q := by
  have hmain : ∀ {m : MainPc n} {stop : Bool}, m.inQueue = s.main.inQueue →
      Pictures { s with main := m, gStop := stop } q :=
    fun hm => hp.quiet (fun _ => ⟨rfl, rfl⟩) rfl id rfl hm
  have hbefore : ∀ l : List (Fin n), (MainPc.closeAll l).inQueue = .running := by
    intro l
    cases l <;> rfl
  cases h with
  | thread _ h => exact answered_thread hw hp h
  | @first ok hm =>
    refine Answered.stay (hmain ?_) rfl rfl
    rw [hm]
    split <;> rfl
  | leave hm | stopped hm | joined hm | join hm =>
    refine Answered.stay (hmain ?_) rfl rfl
    rw [hm]
    rfl
  | storeStop hm =>
    refine Answered.stay (hmain ?_) rfl rfl
    rw [hm]
    exact hbefore _
  | @close _ i rest p sh r hm _ h =>
    refine Answered.stay (hp.quiet (same_setClient s rfl (Session.closeStep_todo h).2.1) rfl id rfl ?_)
      rfl rfl
    rw [hm]
    cases r with
    | some p' => rfl
    | none => exact hbefore rest
  | stopKj hm => exact answered_stopKj hw hp hm
  | joinKj hm hkj =>
    have hjoining : q.main = .joiningKj := by rw [hp.main, hm]; rfl
    have hplace : q.kj = .exited := by
      have hk := hkj ▸ hp.kj
      cases hq : q.kj <;> rw [hq] at hk <;> first | rfl | exact hk.elim
    refine Answered.step .main { q with main := .done } ?_ ?_ (List.append_nil _).symm rfl
    · show q.mainStep = _
      rw [RegQueue.State.mainStep, hjoining, hplace]
    · exact ⟨hp.queue, hp.kj, hp.kjStop, rfl, hp.running, hp.awaiting, hp.exited, hp.waited⟩
  | packet | send | sent | signal =>
    exact Answered.stay (hp.quiet (fun _ => ⟨rfl, rfl⟩) rfl id rfl rfl) rfl rfl
  | dropped => exact Answered.stay hp rfl rfl
  | take hkj hqueue => exact answered_take hp hkj hqueue
  | @finish ok hkj hqueue hstop =>
    have hplace : q.kj = .acquire := by
      have hk := hkj ▸ hp.kj
      cases hq : q.kj <;> rw [hq] at hk <;> first | rfl | exact hk.elim
    have hempty : q.queue = [] := List.map_eq_nil_iff.mp (hp.queue.trans hqueue)
    refine Answered.step (.kj ok) { q with kj := .draining } ?_ ?_
      (List.append_nil _).symm ?_
    · show q.kjStep false ok = _
      rw [RegQueue.State.kjStep, hplace, hempty, hp.kjStop, hstop]
      rfl
    · refine ⟨hp.queue, trivial, hp.kjStop, hp.main, hp.running, hp.awaiting, hp.exited, fun w hin => ?_⟩
      exact hp.waited w (List.mem_append_right _ hin)
    · rw [RegQueue.State.call, hplace]
      simp only [answers, hkj, List.map_nil]
  | serve hkj h => exact answered_serve hw hp hkj h
  | @drain ok hkj =>
    obtain ⟨hstop, hqueue⟩ := hw.past (Or.inl hkj)
    have hplace : q.kj = .draining := by
      have hk := hkj ▸ hp.kj
      cases hq : q.kj <;> rw [hq] at hk <;> first | rfl | exact hk.elim
    have hempty : q.queue = [] := List.map_eq_nil_iff.mp (hp.queue.trans hqueue)
    refine Answered.step (.kj ok) { q with kj := .exited } ?_ ?_
      (List.append_nil _).symm ?_
    · show q.kjStep false ok = _
      rw [RegQueue.State.kjStep, hplace, hempty, List.map_nil, List.append_nil]
    · have hclients : (fun i => if i ∈ s.queue then
          { s.clients i with shared := { s.shared i with future := .answered false } }
        else s.clients i) = s.clients := by
        funext i
        rw [hqueue]
        exact if_neg List.not_mem_nil
      rw [hclients]
      exact ⟨List.map_eq_nil_iff.mpr hempty, trivial, hp.kjStop, hp.main, hp.running, hp.awaiting,
        hp.exited, fun w hin => hp.waited w (List.mem_append_right _ hin)⟩
    · rw [RegQueue.State.call, hplace]
      simp only [answers, hkj, List.map_nil]
  | event _ hdeliver =>
    exact Answered.stay
      (hp.quiet (same_setClient s rfl (Session.deliver_future hdeliver).1) rfl id rfl rfl) rfl rfl
  | callback hstep =>
    exact Answered.stay
      (hp.quiet (same_setClient s rfl (Session.callbackStep_future hstep).1) rfl id rfl rfl) rfl rfl
  | datagram | decode =>
    exact Answered.stay (hp.quiet (same_setClient s rfl rfl) rfl id rfl rfl) rfl rfl
  | inject =>
    exact Answered.stay (hp.quiet (same_setClient s rfl rfl) rfl id rfl rfl) rfl rfl

/-! ## The runs side by side -/

/-- What a run of the queue has to do with the run of the process that it is beside. -/
structure Beside (history : List (State n × Action n)) (s : State n)
    (qhistory : List (RegQueue.State (Fin n) ρ Bool × RegQueue.Action (Fin n) Bool))
    (q : RegQueue.State (Fin n) ρ Bool) : Prop where
  pictures : Pictures s q
  posted : q.posted.map RegWork.cl = Machine.emitted posts history
  answered : (RegQueue.calls qhistory).map (fun c => (c.cl, c.result)) =
    Machine.emitted answers history

theorem beside_init (request : Fin n → ρ) :
    Beside [] (process n).init [] (registrations request false).init where
  pictures := ⟨rfl, trivial, rfl, rfl, fun _ _ _ => rfl, nofun, nofun, nofun⟩
  posted := rfl
  answered := rfl

/-- A run of the process has a run of the queue beside it. -/
theorem exists_beside (request : Fin n → ρ) {history : List (State n × Action n)}
    (h : (process n).Run Blocks history s) : ∃ qhistory q,
      (registrations request false).Run (fun _ _ => True) qhistory q ∧ Beside history s qhistory q := by
  refine Machine.Run.simulated (R := Beside) (beside_init request) ?_ h
  intro history s a s' qhistory q hrun _ hstep _ hb
  obtain ⟨more, q', hleads, hp, hposts, hanswers⟩ :=
    (step_moves hstep).answered request (reach_wired hrun.reach) hb.pictures
  refine ⟨more, q', hleads, hp, ?_, ?_⟩
  · rw [hposts, hb.posted, Machine.emitted_snoc]
  · rw [RegQueue.calls, Machine.emitted, List.flatMap_append, List.map_append, Machine.emitted_snoc,
      ← hanswers, ← hb.answered]
    rfl

/-- The works that are posted in a run, and the answers that are given. -/
structure InTurn (history : List (State n × Action n)) (s : State n) : Prop where
  /-- What is answered, in hand and in the queue is what was posted, in this order. -/
  order : Machine.emitted posts history =
    (Machine.emitted answers history).map Prod.fst ++ (s.kj.inHand ++ s.queue)
  /-- A thread goes on with the answer to the last work that it has posted. -/
  own : ∀ i ok, (s.clients i).thread = .await → (s.clients i).shared.future = .answered ok →
    ∃ p : Nat, (Machine.emitted answers history)[p]? = some (i, ok) ∧
      (Machine.emitted posts history)[p]? = some i ∧
      ∀ k : Nat, (Machine.emitted posts history)[k]? = some i → k ≤ p

/-- What is proved of the queue on its own, said of the process beside it. -/
theorem Beside.inTurn {request : Fin n → ρ} {history : List (State n × Action n)}
    {qhistory : List (RegQueue.State (Fin n) ρ Bool × RegQueue.Action (Fin n) Bool)}
    (hb : Beside history s qhistory q)
    (h : (registrations request false).Run (fun _ _ => True) qhistory q) : InTurn history s := by
  obtain ⟨answered, hposted, -, hcalls⟩ := RegQueue.accounts h
  have hserved := RegQueue.served h
  refine ⟨?_, fun i ok hawait hfuture => ?_⟩
  · have hanswered : (Machine.emitted answers history).map Prod.fst =
        (answered.map Prod.fst).map RegWork.cl := by
      rw [← hb.answered, hcalls]
      simp only [List.map_map]
      rfl
    rw [hanswered, ← hb.posted, hposted, List.map_append, List.map_append, hb.pictures.queue,
      hb.pictures.kj.inHand]
  · obtain ⟨p, hpc, hpromise⟩ := hb.pictures.awaiting i hawait
    have hset := hpromise ok hfuture
    obtain ⟨p', hp'⟩ := List.mem_iff_getElem?.mp hset
    have hlt : p' < q.promises.length := (List.getElem?_eq_some_iff.mp hp').1
    obtain ⟨w, result, hwork, hresult, hcall⟩ := hserved.own p' hlt
    obtain ⟨rfl, rfl⟩ : p = p' ∧ ok = result := by
      cases hp'.symm.trans hresult
      exact ⟨rfl, rfl⟩
    obtain ⟨w', hwork', hcl⟩ := hserved.awaited i p hpc
    cases hwork.symm.trans hwork'
    refine ⟨p, ?_, ?_, fun k hk => ?_⟩
    · rw [← hb.answered, List.getElem?_map, hcall, ← hcl]
      rfl
    · rw [← hb.posted, List.getElem?_map, hwork, ← hcl]
      rfl
    · rw [← hb.posted, List.getElem?_map] at hk
      obtain ⟨v, hv, hvi⟩ := Option.map_eq_some_iff.mp hk
      have hnumber : v.promise = k := by
        have hrange : (q.posted.map RegWork.promise)[k]? = some v.promise := by
          rw [List.getElem?_map, hv, Option.map_some]
        rw [hserved.numbered, List.getElem?_range (List.getElem?_eq_some_iff.mp hv).1] at hrange
        exact (Option.some.inj hrange).symm
      exact hnumber ▸ awaited_last h.reach i p hpc v (List.mem_of_getElem? hv) hvi

/-- **The queue of the process is the registration queue.** Beside every run of the process, with any
number of clients and whatever the works are about, there is a run of the registration queue that posts
and answers the same. So the works are answered in the order in which they were posted, each once, and a
connection thread goes on with the outcome of the last one that it posted. -/
theorem queue_simulated {history : List (State n × Action n)} (h : (process n).Run Blocks history s)
    (request : Fin n → ρ) :
    (∃ qhistory q, (registrations request false).Run (fun _ _ => True) qhistory q ∧
      Beside history s qhistory q) ∧ InTurn history s := by
  obtain ⟨qhistory, q, hrun, hb⟩ := exists_beside request h
  exact ⟨⟨qhistory, q, hrun, hb⟩, hb.inTurn hrun⟩

/-- A client posts, and is answered before its thread goes on. -/
def answeredSteps : List Session.Action :=
  Session.threadSteps 32 ++ [.event 0 .connected, .callback 0] ++ Session.threadSteps 2 ++
    List.replicate 7 (.kj true)

theorem queue_simulated_two : ∃ history s, (process 2).Run Blocks history s ∧
    ((∃ qhistory q, (registrations (fun i : Fin 2 => i) false).Run (fun _ _ => True) qhistory q ∧
      Beside history s qhistory q) ∧ InTurn history s) ∧
    (s.clients 1).thread = .await ∧ (s.clients 1).shared.future = .answered true := by
  have hexec : ((process 2).exec Blocks (process 2).init (answeredSteps.map (asClient 1))).any
      (fun s => decide ((s.clients 1).thread = .await ∧
        (s.clients 1).shared.future = .answered true)) = true := by
    decide
  obtain ⟨s, hs, hanswered⟩ := Machine.exists_reach_of_exec hexec
  obtain ⟨history, hrun⟩ := hs.exists_run
  exact ⟨history, s, hrun, queue_simulated hrun fun i => i, hanswered⟩

end Cfd.Main.Process
