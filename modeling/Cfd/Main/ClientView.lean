import Cfd.Main.Process
import Cfd.Tunnel.Shutdown

/-!
# What a client sees of the process

Every run of the process is seen by each of its clients as a run of one session, in which `main`, the
router thread and the registration thread stand still while they are busy with other clients
(`client_refines`). So whatever is proved of the session holds of each client of the process, however
many there are, and whatever the others do.

`Moves` lists what a step of the process can be. Two things have to be known of the shared parties for
the refinement. `main` closes each client once and joins each thread once, so that it is not back with a
client that it has left. And a work that the registration thread takes from the queue is for a client
whose thread has posted one and waits for it.
-/

set_option autoImplicit false

namespace Cfd.Main.Process

open Cfd.Base Cfd.Tunnel
open Session (Handle Shared ConnEvent ConnOp ClosePc UsePc session closeStep useStep deliver callbackStep)

variable {n : Nat}

/-! ## The moves of the process -/

/-- What a step can be. -/
inductive Moves (s : State n) : Action n → State n → Prop
  | thread {i : Fin n} {ok : Bool} {sh : Shared} {t : Session.ThreadPc}
      (hwait : (s.clients i).waits (s.clients i).thread.connOp = false)
      (h : Session.threadStep (s.shared i) ok (s.clients i).thread = some (sh, t)) :
      Moves s (.thread i ok) { s.setClient i { s.clients i with shared := sh, thread := t } with
        queue := if (s.clients i).thread = .post then s.queue ++ [i] else s.queue }
  | first {ok : Bool} (hm : s.main = .waiting) :
      Moves s (.main ok) { s with main := if ok && !s.gStop then .pumping else .storeStop }
  | leave {ok : Bool} (hm : s.main = .pumping) (hstop : s.gStop = true) :
      Moves s (.main ok) { s with main := .stopping }
  | stopped {ok : Bool} (hm : s.main = .stopping) (hrouter : s.router = .idle) :
      Moves s (.main ok) { s with main := .storeStop }
  | storeStop {ok : Bool} (hm : s.main = .storeStop) :
      Moves s (.main ok) { s with gStop := true, main := .closeAll (List.finRange n) }
  | close {ok : Bool} {i : Fin n} {rest : List (Fin n)} {p : ClosePc} {sh : Shared}
      {q : Option ClosePc} (hm : s.main = .closing i rest p)
      (hwait : (s.clients i).waits p.connOp = false)
      (h : closeStep .main (s.shared i) p = some (sh, q)) :
      Moves s (.main ok) { s.setClient i { s.clients i with shared := sh } with
        main := q.elim (.closeAll rest) (.closing i rest) }
  | joined {ok : Bool} (hm : s.main = .joining []) : Moves s (.main ok) { s with main := .stopKj }
  | join {ok : Bool} {i : Fin n} {rest : List (Fin n)} (hm : s.main = .joining (i :: rest))
      (hdone : (s.clients i).thread = .done) : Moves s (.main ok) { s with main := .joining rest }
  | stopKj {ok : Bool} (hm : s.main = .stopKj) :
      Moves s (.main ok) { s with kjStop := true, main := .joinKj }
  | joinKj {ok : Bool} (hm : s.main = .joinKj) (hkj : s.kj = .exited) :
      Moves s (.main ok) { s with main := .done }
  | packet {i : Fin n} (hrouter : s.router = .idle) (hm : s.main = .pumping)
      (hi : s.next.toNat % n = i) :
      Moves s .router { s with router := .sending i .guardConnection, next := s.next + 1 }
  | dropped (hm : s.main = .pumping) (hn : n = 0) : Moves s .router s
  | send {i : Fin n} {p p' : UsePc} (hrouter : s.router = .sending i p)
      (h : useStep (s.shared i) p = .goto p') : Moves s .router { s with router := .sending i p' }
  | sent {i : Fin n} {p : UsePc} (hrouter : s.router = .sending i p)
      (h : ∀ p', useStep (s.shared i) p ≠ .goto p') : Moves s .router { s with router := .idle }
  | take {ok : Bool} {i : Fin n} {rest : List (Fin n)} (hkj : s.kj = .acquire)
      (hqueue : s.queue = i :: rest) :
      Moves s (.kj ok)
        { s.setClient i { s.clients i with shared := { s.shared i with future := .taken } } with
          queue := rest
          kj := .serving i (.registering .guardConnection) }
  | finish {ok : Bool} (hkj : s.kj = .acquire) (hqueue : s.queue = []) (hstop : s.kjStop = true) :
      Moves s (.kj ok) { s with kj := .draining }
  | serve {ok : Bool} {i : Fin n} {p k : Session.KjPc} {sh : Shared} (hkj : s.kj = .serving i p)
      (h : Session.kjStep (s.shared i) ok p = some (sh, k)) :
      Moves s (.kj ok) { s.setClient i { s.clients i with shared := sh } with
        kj := if k = .idle then .acquire else .serving i k }
  | drain {ok : Bool} (hkj : s.kj = .draining) :
      Moves s (.kj ok) { s with
        clients := fun i =>
          if i ∈ s.queue then
            { s.clients i with shared := { s.shared i with future := .answered false } }
          else s.clients i
        queue := []
        kj := .exited }
  | event {i : Fin n} {h : Handle} {e : ConnEvent} {sh : Shared}
      (hidle : (s.clients i).inbound h = none) (hdeliver : deliver (s.shared i) h e = some sh) :
      Moves s (.event i h e) (s.setClient i { s.clients i with shared := sh })
  | callback {i : Fin n} {h : Handle} {sh : Shared} (hstep : callbackStep (s.shared i) h = some sh) :
      Moves s (.callback i h) (s.setClient i { s.clients i with shared := sh })
  | datagram {i : Fin n} {h : Handle} {data : Text} (hopen : (s.client i).view.Open h)
      (hcallback : ((s.shared i).conn h).callback = none) (hidle : (s.clients i).inbound h = none) :
      Moves s (.datagram i h data) (s.setInbound i h (some (.decode data)))
  | decode {i : Fin n} {h : Handle} {data : Text} (hpc : (s.clients i).inbound h = some (.decode data)) :
      Moves s (.inbound i h)
        (s.setInbound i h ((deliverInbound (some ()) data).map fun r => .call r.2))
  | inject {i : Fin n} {h : Handle} {packet : Text}
      (hpc : (s.clients i).inbound h = some (.call packet)) :
      Moves s (.inbound i h) { s.setInbound i h none with written := s.written ++ [(i, packet)] }
  | signal : Moves s .signal { s with gStop := true }

variable {s s' : State n} {ok : Bool}

theorem threadStep_moves {i : Fin n} (h : s.threadStep i ok = some s') :
    Moves s (.thread i ok) s' := by
  simp only [State.threadStep] at h
  split at h
  next => cases h
  next hwait =>
    obtain ⟨⟨sh, t⟩, hstep, rfl⟩ := Option.map_eq_some_iff.mp h
    exact .thread (Bool.not_eq_true _ ▸ hwait) hstep

theorem mainStep_moves (h : s.mainStep ok = some s') : Moves s (.main ok) s' := by
  unfold State.mainStep at h
  split at h
  next hm =>
    cases h
    exact .first hm
  next hm =>
    split at h
    next hstop =>
      cases h
      exact .leave hm hstop
    next => cases h
  next hm =>
    split at h
    next hrouter =>
      cases h
      exact .stopped hm hrouter
    next => cases h
  next hm =>
    cases h
    exact .storeStop hm
  next i rest p hm =>
    dsimp only at h
    split at h
    next => cases h
    next hwait =>
      obtain ⟨⟨sh, q⟩, hstep, rfl⟩ := Option.map_eq_some_iff.mp h
      exact .close hm (Bool.not_eq_true _ ▸ hwait) hstep
  next hm =>
    cases h
    exact .joined hm
  next i rest hm =>
    split at h
    next hdone =>
      cases h
      exact .join hm hdone
    next => cases h
  next hm =>
    cases h
    exact .stopKj hm
  next hm =>
    split at h
    next hkj =>
      cases h
      exact .joinKj hm hkj
    next => cases h
  next => cases h

theorem routerStep_moves (h : s.routerStep = some s') : Moves s .router s' := by
  unfold State.routerStep at h
  split at h
  next hrouter =>
    split at h
    next hm =>
      split at h
      next =>
        cases h
        exact .packet hrouter hm rfl
      next hn =>
        cases h
        exact .dropped hm (Nat.eq_zero_of_not_pos hn)
    next => cases h
  next i p hrouter =>
    split at h
    next p' hstep =>
      cases h
      exact .send hrouter hstep
    next hstep =>
      cases h
      exact .sent hrouter fun p' hgoto => by cases hstep.symm.trans hgoto
    next hstep =>
      cases h
      exact .sent hrouter fun p' hgoto => by cases hstep.symm.trans hgoto

theorem kjStep_moves (h : s.kjStep ok = some s') : Moves s (.kj ok) s' := by
  unfold State.kjStep at h
  split at h
  next hkj =>
    split at h
    next i rest hqueue =>
      cases h
      exact .take hkj hqueue
    next hqueue =>
      split at h
      next hstop =>
        cases h
        exact .finish hkj hqueue hstop
      next => cases h
  next i p hkj =>
    obtain ⟨⟨sh, k⟩, hstep, rfl⟩ := Option.map_eq_some_iff.mp h
    exact .serve hkj hstep
  next hkj =>
    cases h
    exact .drain hkj
  next => cases h

theorem inboundStep_moves {i : Fin n} {h : Handle} (hstep : s.inboundStep i h = some s') :
    Moves s (.inbound i h) s' := by
  unfold State.inboundStep at hstep
  split at hstep
  next => cases hstep
  next data hpc =>
    cases hstep
    exact .decode hpc
  next packet hpc =>
    cases hstep
    exact .inject hpc

/-- **Every step is one of the moves.** -/
theorem step_moves {a : Action n} (h : s.step a = some s') : Moves s a s' := by
  cases a with
  | thread i ok => exact threadStep_moves h
  | main ok => exact mainStep_moves h
  | router => exact routerStep_moves h
  | kj ok => exact kjStep_moves h
  | event i x e =>
    simp only [State.step, State.eventStep] at h
    split at h
    next => cases h
    next hidle =>
      obtain ⟨sh, hdeliver, rfl⟩ := Option.map_eq_some_iff.mp h
      exact .event (Decidable.not_not.mp hidle) hdeliver
  | callback i x =>
    obtain ⟨sh, hstep, rfl⟩ := Option.map_eq_some_iff.mp h
    exact .callback hstep
  | datagram i x data =>
    simp only [State.step, State.datagramStep] at h
    split at h
    next => cases h
    next hnot =>
      cases h
      obtain ⟨hlt, hclosed, hcallback, hidle⟩ :
          ¬(s.shared i).next .connection ≤ x ∧ ¬((s.shared i).handles .connection x).closed = true ∧
            ¬((s.shared i).conn x).callback ≠ none ∧ ¬(s.clients i).inbound x ≠ none := by
        simpa only [not_or] using hnot
      exact .datagram ⟨Nat.lt_of_not_le hlt, Bool.not_eq_true _ ▸ hclosed⟩
        (Decidable.not_not.mp hcallback) (Decidable.not_not.mp hidle)
  | inbound i x => exact inboundStep_moves h
  | signal =>
    cases h
    exact .signal

/-! ## What the clients share -/

/-- The clients that `main` has still to close, or whose threads it has still to join. -/
def MainPc.ahead : MainPc n → List (Fin n)
  | .closing i rest _ => i :: rest
  | .joining rest => rest
  | _ => []

theorem nodup_ahead_closeAll {l : List (Fin n)} (hl : l.Nodup) : (MainPc.closeAll l).ahead.Nodup := by
  cases l with
  | nil => exact List.nodup_finRange n
  | cons i rest => exact hl

theorem of_closeAll (l : List (Fin n)) (i : Fin n) :
    (MainPc.closeAll l).of i = if i ∈ l then .closing .lock else .joining := by
  cases l with
  | nil => exact if_pos (List.mem_finRange i)
  | cons j rest =>
    by_cases hji : j = i
    · rw [if_pos (List.mem_cons.mpr (Or.inl hji.symm))]
      exact if_pos hji
    · refine (if_neg hji).trans ?_
      simp only [List.mem_cons, Ne.symm hji, false_or]

theorem of_closeAll_ne_done (l : List (Fin n)) (i : Fin n) : (MainPc.closeAll l).of i ≠ .done := by
  rw [of_closeAll]
  split <;> nofun

/-- What is known of the loops of `main`, of the queue and of its threads. -/
structure Wired (s : State n) : Prop where
  once : s.main.ahead.Nodup
  queue : s.queue.Nodup
  waiting : ∀ i ∈ s.queue, (s.clients i).thread = .await ∧ (s.clients i).shared.future = .posted
  posted : ∀ i, (s.clients i).shared.future = .posted → i ∈ s.queue
  serving : ∀ i p, s.kj = .serving i p →
    (s.clients i).thread = .await ∧ (s.clients i).shared.future = .taken
  joined : ∀ i, s.main.of i = .done → (s.clients i).thread = .done
  stopped : s.kjStop = true → ∀ i, (s.clients i).thread = .done
  past : s.kj = .draining ∨ s.kj = .exited → s.kjStop = true ∧ s.queue = []

/-- A thread that waits for its work moves when that has been answered. -/
theorem threadStep_await {sh sh' : Shared} {t : Session.ThreadPc}
    (h : Session.threadStep sh ok .await = some (sh', t)) :
    sh.future ≠ .posted ∧ sh.future ≠ .taken := by
  simp only [Session.threadStep] at h
  constructor <;> intro hfuture <;> simp only [hfuture] at h <;> cases h

@[simp] theorem clients_setClient (s : State n) (i : Fin n) (c : Client) (j : Fin n) :
    (s.setClient i c).clients j = if j = i then c else s.clients j :=
  Function.update_apply s.clients i c j

/-- What a change of one client leaves of that client, it leaves of all. -/
theorem setClient_same {α : Type} (f : Client → α) (s : State n) {i : Fin n} {c : Client}
    (hsame : f c = f (s.clients i)) (j : Fin n) : f ((s.setClient i c).clients j) = f (s.clients j) := by
  rw [clients_setClient]
  split
  next heq => exact heq ▸ hsame
  next => rfl

/-- A thread moves. -/
theorem Wired.thread (hs : Wired s) {i : Fin n} {sh : Shared} {t : Session.ThreadPc}
    (h : Session.threadStep (s.shared i) ok (s.clients i).thread = some (sh, t)) :
    Wired { s.setClient i { s.clients i with shared := sh, thread := t } with
      queue := if (s.clients i).thread = .post then s.queue ++ [i] else s.queue } := by
  have hdone : (s.clients i).thread ≠ .done := by
    intro hthread
    rw [hthread] at h
    cases h
  have hnotIn : i ∉ s.queue := by
    intro hin
    obtain ⟨hthread, hfuture⟩ := hs.waiting i hin
    rw [hthread] at h
    exact (threadStep_await h).1 hfuture
  have hstays : ∀ j, (s.clients j).thread = .done →
      ((s.setClient i { s.clients i with shared := sh, thread := t }).clients j).thread = .done := by
    intro j hj
    have hji : j ≠ i := fun heq => hdone (heq ▸ hj)
    rwa [clients_setClient, if_neg hji]
  refine ⟨hs.once, ?_, ?_, ?_, ?_, fun j hj => hstays j (hs.joined j hj),
    fun hstop j => hstays j (hs.stopped hstop j), ?_⟩
  · show (ite _ _ _ : List (Fin n)).Nodup
    split
    next => exact List.nodup_append.mpr ⟨hs.queue, List.nodup_singleton i, fun j hj k hk heq =>
      hnotIn (List.mem_singleton.mp hk ▸ heq ▸ hj)⟩
    next => exact hs.queue
  · intro j hj
    show ((s.setClient i _).clients j).thread = .await ∧ ((s.setClient i _).clients j).shared.future = _
    rw [clients_setClient]
    by_cases hji : j = i
    · rw [if_pos hji]
      change j ∈ (ite _ _ _ : List (Fin n)) at hj
      split at hj
      next hpost =>
        rw [hpost] at h
        cases h
        exact ⟨rfl, rfl⟩
      next => exact absurd (hji ▸ hj) hnotIn
    · rw [if_neg hji]
      refine hs.waiting j ?_
      change j ∈ (ite _ _ _ : List (Fin n)) at hj
      split at hj
      next => exact (List.mem_append.mp hj).resolve_right fun hmem => hji (List.mem_singleton.mp hmem)
      next => exact hj
  · intro j hj
    show j ∈ (ite _ _ _ : List (Fin n))
    change ((s.setClient i _).clients j).shared.future = _ at hj
    rw [clients_setClient] at hj
    by_cases hji : j = i
    · rw [if_pos hji] at hj
      rcases Session.threadStep_future h with ⟨hpost, -⟩ | ⟨-, -, -, hnone⟩ | ⟨-, -, hsame⟩
      · rw [if_pos hpost, hji]
        exact List.mem_append_right _ List.mem_cons_self
      · cases hnone.symm.trans hj
      · exact absurd (hs.posted i (hsame.symm.trans hj)) hnotIn
    · rw [if_neg hji] at hj
      have hold := hs.posted j hj
      split
      next => exact List.mem_append_left _ hold
      next => exact hold
  · intro j p hkj
    obtain ⟨hthread, hfuture⟩ := hs.serving j p hkj
    have hji : j ≠ i := by
      rintro rfl
      rw [hthread] at h
      exact (threadStep_await h).2 hfuture
    show ((s.setClient i _).clients j).thread = .await ∧ ((s.setClient i _).clients j).shared.future = _
    rw [clients_setClient, if_neg hji]
    exact ⟨hthread, hfuture⟩
  · intro hkj
    obtain ⟨hstop, hqueue⟩ := hs.past hkj
    refine ⟨hstop, ?_⟩
    show (ite _ _ _ : List (Fin n)) = []
    rw [if_neg fun hpost => ?_, hqueue]
    cases hpost.symm.trans (hs.stopped hstop i)

/-- The members of a client change, and its future does not. -/
theorem Wired.setClient (hs : Wired s) {i : Fin n} {c : Client} (hthread : c.thread = (s.clients i).thread)
    (hfuture : c.shared.future = (s.clients i).shared.future) : Wired (s.setClient i c) := by
  have hsame : ∀ j, ((s.setClient i c).clients j).thread = (s.clients j).thread ∧
      ((s.setClient i c).clients j).shared.future = (s.clients j).shared.future := fun j =>
    ⟨setClient_same Client.thread s hthread j, setClient_same (·.shared.future) s hfuture j⟩
  exact ⟨hs.once, hs.queue,
    fun j hj => ⟨(hsame j).1.trans (hs.waiting j hj).1, (hsame j).2.trans (hs.waiting j hj).2⟩,
    fun j hj => hs.posted j ((hsame j).2.symm.trans hj),
    fun j p hkj => ⟨(hsame j).1.trans (hs.serving j p hkj).1, (hsame j).2.trans (hs.serving j p hkj).2⟩,
    fun j hj => (hsame j).1.trans (hs.joined j hj),
    fun hstop j => (hsame j).1.trans (hs.stopped hstop j), hs.past⟩

/-- The callback for a datagram moves. -/
theorem Wired.setInbound (hs : Wired s) {i : Fin n} {x : Handle} {p : Option InboundPc} :
    Wired (s.setInbound i x p) :=
  hs.setClient rfl rfl

/-- `main` goes on. -/
theorem Wired.setMain (hs : Wired s) {m : MainPc n} (honce : m.ahead.Nodup)
    (hjoined : ∀ i, m.of i = .done → (s.clients i).thread = .done) : Wired { s with main := m } where
  once := honce
  queue := hs.queue
  waiting := hs.waiting
  posted := hs.posted
  serving := hs.serving
  joined := hjoined
  stopped := hs.stopped
  past := hs.past

theorem of_closing_ne_done (i : Fin n) (rest : List (Fin n)) (p : ClosePc) (j : Fin n) :
    (MainPc.closing i rest p).of j ≠ .done := by
  simp only [MainPc.of]
  split
  next => nofun
  next => split <;> nofun

/-- The registration thread takes the first work of the queue. -/
theorem Wired.take (hs : Wired s) {i : Fin n} {rest : List (Fin n)} (hqueue : s.queue = i :: rest) :
    Wired { s.setClient i { s.clients i with shared := { s.shared i with future := .taken } } with
      queue := rest
      kj := .serving i (.registering .guardConnection) } := by
  obtain ⟨hnotIn, hrest⟩ := List.nodup_cons.mp (hqueue ▸ hs.queue)
  obtain ⟨hawait, -⟩ := hs.waiting i (hqueue ▸ List.mem_cons_self)
  have hthread : ∀ j, ((s.setClient i { s.clients i with
      shared := { s.shared i with future := .taken } }).clients j).thread = (s.clients j).thread :=
    setClient_same Client.thread s rfl
  refine ⟨hs.once, hrest, fun j hj => ?_, fun j hj => ?_, fun j p hkj => ?_,
    fun j hj => (hthread j).trans (hs.joined j hj),
    fun hstop j => (hthread j).trans (hs.stopped hstop j), nofun⟩
  · have hji : j ≠ i := fun heq => hnotIn (heq ▸ hj)
    show ((s.setClient i _).clients j).thread = .await ∧ ((s.setClient i _).clients j).shared.future = _
    rw [clients_setClient, if_neg hji]
    exact hs.waiting j (hqueue ▸ List.mem_cons_of_mem i hj)
  · change ((s.setClient i _).clients j).shared.future = _ at hj
    rw [clients_setClient] at hj
    split at hj
    next => cases hj
    next hji => exact (List.mem_cons.mp (hqueue ▸ hs.posted j hj)).resolve_left hji
  · cases hkj
    refine ⟨(hthread i).trans hawait, ?_⟩
    show ((s.setClient i _).clients i).shared.future = .taken
    rw [clients_setClient, if_pos rfl]

/-- The registration thread goes on with a work. -/
theorem Wired.serve (hs : Wired s) {i : Fin n} {p k : Session.KjPc} {sh : Shared}
    (hkj : s.kj = .serving i p) (h : Session.kjStep (s.shared i) ok p = some (sh, k)) :
    Wired { s.setClient i { s.clients i with shared := sh } with
      kj := if k = .idle then .acquire else .serving i k } := by
  obtain ⟨hawait, htaken⟩ := hs.serving i p hkj
  have hnotIn : i ∉ s.queue := fun hin => by cases htaken.symm.trans (hs.waiting i hin).2
  have hthread : ∀ j, ((s.setClient i { s.clients i with shared := sh }).clients j).thread =
      (s.clients j).thread := setClient_same Client.thread s rfl
  have hfuture : sh.future ≠ .posted := by
    rcases Session.kjStep_future h with ⟨-, -, -, hnew⟩ | ⟨-, -, ok, hnew⟩ | ⟨-, -, hsame⟩
    · rw [hnew]
      nofun
    · rw [hnew]
      nofun
    · rw [hsame.trans htaken]
      nofun
  refine ⟨hs.once, hs.queue, fun j hj => ?_, fun j hj => ?_, fun j q hk => ?_,
    fun j hj => (hthread j).trans (hs.joined j hj),
    fun hstop j => (hthread j).trans (hs.stopped hstop j), fun hk => ?_⟩
  · have hji : j ≠ i := fun heq => hnotIn (heq ▸ hj)
    show ((s.setClient i _).clients j).thread = .await ∧ ((s.setClient i _).clients j).shared.future = _
    rw [clients_setClient, if_neg hji]
    exact hs.waiting j hj
  · change ((s.setClient i _).clients j).shared.future = _ at hj
    rw [clients_setClient] at hj
    split at hj
    next => exact absurd hj hfuture
    next => exact hs.posted j hj
  · change ite _ _ _ = _ at hk
    split at hk
    next => cases hk
    next hne =>
      cases hk
      refine ⟨(hthread i).trans hawait, ?_⟩
      show ((s.setClient i _).clients i).shared.future = .taken
      rw [clients_setClient, if_pos rfl]
      rcases Session.kjStep_future h with ⟨-, -, hposted, -⟩ | ⟨-, hidle, -⟩ | ⟨-, -, hsame⟩
      · cases htaken.symm.trans hposted
      · exact absurd hidle hne
      · exact hsame.trans htaken
  · change ite _ _ _ = _ ∨ ite _ _ _ = _ at hk
    split at hk <;> rcases hk with hk | hk <;> cases hk

/-- **A move keeps what is known of the shared parties.** -/
theorem Moves.wired {a : Action n} (hs : Wired s) (h : Moves s a s') : Wired s' := by
  cases h with
  | thread _ h => exact hs.thread h
  | @first ok hm =>
    refine hs.setMain ?_ fun i hi => ?_
    · split <;> exact List.nodup_nil
    · split at hi <;> cases hi
  | leave | stopped => exact hs.setMain List.nodup_nil nofun
  | storeStop =>
    have hmain := hs.setMain (nodup_ahead_closeAll (List.nodup_finRange n))
      fun i hi => absurd hi (of_closeAll_ne_done _ i)
    exact { hmain with }
  | @close _ i rest p sh q hm _ h =>
    have honce : (i :: rest).Nodup := by
      have := hs.once
      rwa [hm] at this
    have hclient := hs.setClient (c := { s.clients i with shared := sh }) rfl
      (Session.closeStep_todo h).2.1
    cases q with
    | some p' => exact hclient.setMain honce fun j hj => absurd hj (of_closing_ne_done i rest p' j)
    | none =>
      exact hclient.setMain (nodup_ahead_closeAll (List.nodup_cons.mp honce).2)
        fun j hj => absurd hj (of_closeAll_ne_done rest j)
  | joined hm =>
    refine hs.setMain List.nodup_nil fun i _ => hs.joined i ?_
    rw [hm]
    show ite (i ∈ ([] : List (Fin n))) Session.MainPc.joining .done = .done
    exact if_neg List.not_mem_nil
  | @join _ i rest hm hdone =>
    have honce : (i :: rest).Nodup := by
      have := hs.once
      rwa [hm] at this
    refine hs.setMain (List.nodup_cons.mp honce).2 fun j hj => ?_
    by_cases hji : j = i
    · exact hji ▸ hdone
    · refine hs.joined j ?_
      have hrest : j ∉ rest := fun hin => by cases (if_pos hin).symm.trans hj
      rw [hm]
      exact if_neg fun hin => (List.mem_cons.mp hin).elim hji hrest
  | stopKj hm =>
    have hdone : ∀ i, (s.clients i).thread = .done := fun i => hs.joined i (hm ▸ rfl)
    exact { hs.setMain (m := .joinKj) List.nodup_nil fun i _ => hdone i with
      stopped := fun _ => hdone
      past := fun hkj => ⟨rfl, (hs.past hkj).2⟩ }
  | joinKj hm => exact hs.setMain List.nodup_nil fun i _ => hs.joined i (hm ▸ rfl)
  | packet | send | sent | signal => exact { hs with }
  | dropped => exact hs
  | take _ hqueue => exact hs.take hqueue
  | finish _ hqueue hstop => exact { hs with serving := nofun, past := fun _ => ⟨hstop, hqueue⟩ }
  | serve hkj h => exact hs.serve hkj h
  | drain hkj =>
    obtain ⟨hstop, hqueue⟩ := hs.past (Or.inl hkj)
    have hclients : (fun i => if i ∈ s.queue then
        { s.clients i with shared := { s.shared i with future := .answered false } }
      else s.clients i) = s.clients := by
      funext i
      rw [hqueue]
      exact if_neg List.not_mem_nil
    rw [hclients]
    exact { hs with
      queue := List.nodup_nil
      waiting := fun i hi => absurd hi List.not_mem_nil
      posted := fun i hi => hqueue ▸ hs.posted i hi
      serving := nofun
      past := fun _ => ⟨hstop, rfl⟩ }
  | event _ hdeliver => exact hs.setClient rfl (Session.deliver_future hdeliver).1
  | callback hstep => exact hs.setClient rfl (Session.callbackStep_future hstep).1
  | datagram | decode => exact hs.setInbound
  | inject => exact { hs.setInbound with }

theorem wired_init : Wired (process n).init where
  once := List.nodup_nil
  queue := List.nodup_nil
  waiting := nofun
  posted := nofun
  serving := nofun
  joined := nofun
  stopped := nofun
  past := nofun

theorem reach_wired {guard : State n → Action n → Prop} (h : (process n).Reach guard s) : Wired s :=
  h.invariant wired_init fun _ _ _ _ _ hstep hs => (step_moves hstep).wired hs

/-! ## The refinement -/

/-- Where the parts of the process that a client sees are known, so is what it sees. -/
theorem client_eq {i : Fin n} {sh : Shared} {t : Session.ThreadPc} {r : Session.RouterPc}
    {k : Session.KjPc} {m : Session.MainPc} (hshared : s.shared i = sh)
    (hthread : (s.clients i).thread = t) (hrouter : s.router.of i = r) (hkj : s.kj.of i = k)
    (hmain : s.main.of i = m) : s.client i = ⟨sh, t, r, k, m⟩ := by
  subst hshared hthread hrouter hkj hmain
  rfl

/-- What a client does not see. -/
theorem client_congr {i : Fin n} (hclient : s'.clients i = s.clients i) (hstop : s'.gStop = s.gStop)
    (hrouter : s'.router.of i = s.router.of i) (hkj : s'.kj.of i = s.kj.of i)
    (hmain : s'.main.of i = s.main.of i) : s'.client i = s.client i := by
  refine client_eq ?_ (congrArg Client.thread hclient) hrouter hkj hmain
  unfold State.shared
  rw [hclient, hstop]

/-- Members that agree with the process on `g_stop` are what the client has. -/
theorem shared_setClient {i : Fin n} {c : Client} (hstop : c.shared.gStop = s.gStop) :
    (s.setClient i c).shared i = c.shared := by
  unfold State.shared
  rw [clients_setClient, if_pos rfl]
  show { c.shared with gStop := s.gStop } = c.shared
  rw [← hstop]

theorem thread_setClient (s : State n) (i : Fin n) (c : Client) :
    ((s.setClient i c).clients i).thread = c.thread := by
  rw [clients_setClient, if_pos rfl]

theorem clients_setClient_of_ne (s : State n) {i j : Fin n} (hji : j ≠ i) (c : Client) :
    (s.setClient i c).clients j = s.clients j := by
  rw [clients_setClient, if_neg hji]

/-- A connection thread does not touch `g_stop`. -/
theorem threadStep_gStop {sh sh' : Shared} {t t' : Session.ThreadPc}
    (h : Session.threadStep sh ok t = some (sh', t')) : sh'.gStop = sh.gStop := by
  cases t with
  | close site p =>
    rw [Session.threadStep_close] at h
    obtain ⟨⟨sh₁, q⟩, hclose, hpair⟩ := Option.map_eq_some_iff.mp h
    cases hpair
    exact (Session.closeStep_todo hclose).2.2
  | connect p =>
    rw [Session.threadStep_connect] at h
    obtain ⟨⟨sh₁, q⟩, hconnect, hpair⟩ := Option.map_eq_some_iff.mp h
    cases hpair
    exact (Session.connectStep_todo hconnect).2.2
  | await =>
    simp only [Session.threadStep] at h
    split at h <;> cases h <;> rfl
  | wait =>
    simp only [Session.threadStep] at h
    split at h <;> cases h
    rfl
  | install | check | clearDisc | sleep | post | advertise | recheck | clearHandler =>
    cases h
    rfl
  | done => cases h

theorem mainStep_closing {t : Session.State} {p : ClosePc} (hm : t.main = .closing p) :
    Session.mainStep t ok =
      (closeStep .main t.shared p).map fun r => (r.1, r.2.elim .joining .closing) := by
  simp only [Session.mainStep, hm]
  rcases closeStep .main t.shared p with _ | ⟨sh, _ | q⟩ <;> rfl

/-- One state of a client follows another by an action, or is the same. -/
def Follows (t t' : Session.State) : Option Session.Action → Prop
  | some b => t.step b = some t'
  | none => t' = t

theorem follows_ite {t t' : Session.State} {b : Session.Action} {p : Prop} [Decidable p]
    (hmove : p → t.step b = some t') (hstay : ¬p → t' = t) :
    Follows t t' (if p then some b else none) := by
  split
  next hp => exact hmove hp
  next hp => exact hstay hp

/-- A step of `main` that is about a client. -/
theorem client_mainStep {i : Fin n} (sh : Shared) (m : Session.MainPc)
    (h : Session.mainStep (s.client i) ok = some (sh, m)) (hshared : s'.shared i = sh)
    (hthread : (s'.clients i).thread = (s.clients i).thread) (hrouter : s'.router = s.router)
    (hkj : s'.kj = s.kj) (hmain : s'.main.of i = m) :
    (s.client i).step (.main ok) = some (s'.client i) := by
  show (Session.mainStep (s.client i) ok).map _ = _
  rw [h]
  exact congrArg some (client_eq hshared hthread (hrouter ▸ rfl) (hkj ▸ rfl) hmain).symm

theorem of_main {i : Fin n} {m : MainPc n} (hm : s.main = m) : (s.client i).main = m.of i :=
  congrArg (MainPc.of i) hm

theorem of_router {i : Fin n} {r : RouterPc n} (hrouter : s.router = r) :
    (s.client i).router = r.of i :=
  congrArg (RouterPc.of i) hrouter

theorem of_kj {i : Fin n} {k : KjPc n} (hkj : s.kj = k) : (s.client i).kj = k.of i :=
  congrArg (KjPc.of i) hkj

/-- A step of the connection thread of a client. -/
theorem client_threadStep {i : Fin n} {sh : Shared} {t : Session.ThreadPc}
    (h : Session.threadStep (s.shared i) ok (s.clients i).thread = some (sh, t))
    (hshared : s'.shared i = sh) (hthread : (s'.clients i).thread = t) (hrouter : s'.router = s.router)
    (hkj : s'.kj = s.kj) (hmain : s'.main = s.main) :
    (s.client i).step (.thread ok) = some (s'.client i) := by
  show (Session.threadStep (s.shared i) ok (s.clients i).thread).map _ = _
  rw [h]
  exact congrArg some (client_eq hshared hthread (hrouter ▸ rfl) (hkj ▸ rfl) (hmain ▸ rfl)).symm

/-- A thread moves. -/
theorem follows_thread {j : Fin n} {sh : Shared} {t : Session.ThreadPc}
    (h : Session.threadStep (s.shared j) ok (s.clients j).thread = some (sh, t)) {queue : List (Fin n)}
    (i : Fin n) :
    Follows (s.client i)
      (State.client { s.setClient j { s.clients j with shared := sh, thread := t } with queue } i)
      (s.seen i (.thread j ok)) := by
  refine follows_ite (fun hji => ?_) (fun hji => ?_)
  · subst hji
    exact client_threadStep h (shared_setClient (threadStep_gStop h)) (thread_setClient s j _) rfl rfl rfl
  · exact client_congr (clients_setClient_of_ne s (Ne.symm hji) _) rfl rfl rfl rfl

/-- `main` goes on with the close of a client, or to the next one. -/
theorem follows_close (hs : Wired s) {j : Fin n} {rest : List (Fin n)} {p : ClosePc} {sh : Shared}
    {q : Option ClosePc} (hm : s.main = .closing j rest p)
    (h : closeStep .main (s.shared j) p = some (sh, q)) (i : Fin n) :
    Follows (s.client i)
      (State.client { s.setClient j { s.clients j with shared := sh } with
        main := q.elim (.closeAll rest) (.closing j rest) } i) (s.seen i (.main ok)) := by
  have hnotIn : j ∉ rest := by
    have honce := hs.once
    rw [hm] at honce
    exact (List.nodup_cons.mp honce).1
  have habout : s.main.about i = decide (j = i) := by rw [hm]; rfl
  refine follows_ite (fun hji => ?_) (fun hji => ?_)
  · rw [habout, decide_eq_true_eq] at hji
    subst hji
    have hmain : (s.client j).main = .closing p := (of_main hm).trans (if_pos rfl)
    refine client_mainStep sh (q.elim .joining .closing) ?_
      (shared_setClient (Session.closeStep_todo h).2.2) (thread_setClient s j _) rfl rfl ?_
    · rw [mainStep_closing hmain]
      show (closeStep .main (s.shared j) p).map _ = _
      rw [h]
      rfl
    · cases q with
      | some p' => exact if_pos rfl
      | none => exact (of_closeAll rest j).trans (if_neg hnotIn)
  · rw [habout, decide_eq_true_eq] at hji
    refine client_congr (clients_setClient_of_ne s (Ne.symm hji) _) rfl rfl rfl ?_
    have hbefore : s.main.of i = if i ∈ rest then .closing .lock else .joining := by
      rw [hm]
      exact if_neg hji
    rw [hbefore]
    cases q with
    | some p' => exact if_neg hji
    | none => exact of_closeAll rest i

/-- `main` joins a thread. -/
theorem follows_join (hs : Wired s) {j : Fin n} {rest : List (Fin n)}
    (hm : s.main = .joining (j :: rest)) (hdone : (s.clients j).thread = .done) (i : Fin n) :
    Follows (s.client i) (State.client { s with main := .joining rest } i) (s.seen i (.main ok)) := by
  have hnotIn : j ∉ rest := by
    have honce := hs.once
    rw [hm] at honce
    exact (List.nodup_cons.mp honce).1
  have habout : s.main.about i = decide (j = i) := by rw [hm]; rfl
  refine follows_ite (fun hji => ?_) (fun hji => ?_)
  · rw [habout, decide_eq_true_eq] at hji
    subst hji
    have hmain : (s.client j).main = .joining := (of_main hm).trans (if_pos List.mem_cons_self)
    have hthread : (s.client j).thread = .done := hdone
    refine client_mainStep (s.shared j) .done ?_ rfl rfl rfl rfl (if_neg hnotIn)
    simp only [Session.mainStep, hmain, hthread, if_true]
    rfl
  · rw [habout, decide_eq_true_eq] at hji
    refine client_congr rfl rfl rfl rfl ?_
    rw [hm]
    show ite (i ∈ rest) _ _ = ite (i ∈ j :: rest) _ _
    simp only [List.mem_cons, Ne.symm hji, false_or]

/-- A step of the router thread that is about a client. -/
theorem client_routerStep {i : Fin n} {r : Session.RouterPc}
    (h : Session.routerStep (s.client i) = some r) (hclients : s'.clients = s.clients)
    (hstop : s'.gStop = s.gStop) (hrouter : s'.router.of i = r) (hkj : s'.kj = s.kj)
    (hmain : s'.main = s.main) : (s.client i).step .router = some (s'.client i) := by
  show (Session.routerStep (s.client i)).map _ = _
  rw [h]
  refine congrArg some (client_eq ?_ (hclients ▸ rfl) hrouter (hkj ▸ rfl) (hmain ▸ rfl)).symm
  unfold State.shared
  rw [hclients, hstop]
  rfl

/-- The router thread is given a packet. -/
theorem follows_packet {j : Fin n} (hrouter : s.router = .idle) (hm : s.main = .pumping)
    (hj : s.next.toNat % n = j) (i : Fin n) :
    Follows (s.client i)
      (State.client { s with router := .sending j .guardConnection, next := s.next + 1 } i)
      (s.seen i .router) := by
  have hroutes : s.routes i = decide (j = i) := by
    simp only [State.routes, hrouter, hj, Fin.val_inj]
  refine follows_ite (fun hji => ?_) (fun hji => ?_)
  · rw [hroutes, decide_eq_true_eq] at hji
    subst hji
    refine client_routerStep (r := .sending .guardConnection) ?_ rfl rfl (if_pos rfl) rfl rfl
    simp only [Session.routerStep, of_router hrouter, of_main hm, RouterPc.of, MainPc.of, if_true]
  · rw [hroutes, decide_eq_true_eq] at hji
    refine client_congr rfl rfl ?_ rfl rfl
    rw [hrouter]
    exact if_neg hji

/-- The router thread moves in `send_packet`, to another position or out of it. -/
theorem follows_send {j : Fin n} {p : UsePc} {r : RouterPc n} (hrouter : s.router = .sending j p)
    (hstep : Session.routerStep (s.client j) = some (r.of j)) (hother : ∀ i, j ≠ i → r.of i = .idle)
    (i : Fin n) : Follows (s.client i) (State.client { s with router := r } i) (s.seen i .router) := by
  have hroutes : s.routes i = decide (j = i) := by simp only [State.routes, hrouter]
  refine follows_ite (fun hji => ?_) (fun hji => ?_)
  · rw [hroutes, decide_eq_true_eq] at hji
    subst hji
    exact client_routerStep hstep rfl rfl rfl rfl rfl
  · rw [hroutes, decide_eq_true_eq] at hji
    refine client_congr rfl rfl ((hother i hji).trans ?_) rfl rfl
    rw [hrouter]
    exact (if_neg hji).symm

/-- A step of the registration thread that is about a client. -/
theorem client_kjStep {i : Fin n} {sh : Shared} {k : Session.KjPc}
    (h : Session.kjStep (s.shared i) ok (s.kj.of i) = some (sh, k)) (hshared : s'.shared i = sh)
    (hthread : (s'.clients i).thread = (s.clients i).thread) (hrouter : s'.router = s.router)
    (hkj : s'.kj.of i = k) (hmain : s'.main = s.main) :
    (s.client i).step (.kj ok) = some (s'.client i) := by
  show (Session.kjStep (s.shared i) ok (s.kj.of i)).map _ = _
  rw [h]
  exact congrArg some (client_eq hshared hthread (hrouter ▸ rfl) hkj (hmain ▸ rfl)).symm

/-- The registration thread takes a work: its client has posted it. -/
theorem follows_take (hs : Wired s) {j : Fin n} {rest : List (Fin n)} (hkj : s.kj = .acquire)
    (hqueue : s.queue = j :: rest) (i : Fin n) :
    Follows (s.client i)
      (State.client
        { s.setClient j { s.clients j with shared := { s.shared j with future := .taken } } with
          queue := rest
          kj := .serving j (.registering .guardConnection) } i) (s.seen i (.kj ok)) := by
  obtain ⟨-, hposted⟩ := hs.waiting j (hqueue ▸ List.mem_cons_self)
  have hserves : s.serves i = decide (j = i) := by
    simp only [State.serves, hkj, hqueue, List.head?_cons, Option.some.injEq]
  refine follows_ite (fun hji => ?_) (fun hji => ?_)
  · rw [hserves, decide_eq_true_eq] at hji
    subst hji
    have hfuture : (s.shared j).future = .posted := hposted
    have hstep : Session.kjStep (s.shared j) ok (s.kj.of j) =
        some ({ s.shared j with future := .taken }, .registering .guardConnection) := by
      rw [hkj]
      exact if_pos hfuture
    exact client_kjStep hstep (shared_setClient rfl) (thread_setClient s j _) rfl (if_pos rfl) rfl
  · rw [hserves, decide_eq_true_eq] at hji
    refine client_congr (clients_setClient_of_ne s (Ne.symm hji) _) rfl rfl ?_ rfl
    rw [hkj]
    exact if_neg hji

/-- The registration thread goes on with a work. -/
theorem follows_serve {j : Fin n} {p k : Session.KjPc} {sh : Shared} (hkj : s.kj = .serving j p)
    (h : Session.kjStep (s.shared j) ok p = some (sh, k)) (i : Fin n) :
    Follows (s.client i)
      (State.client { s.setClient j { s.clients j with shared := sh } with
        kj := if k = .idle then .acquire else .serving j k } i) (s.seen i (.kj ok)) := by
  have hserves : s.serves i = decide (j = i) := by simp only [State.serves, hkj]
  refine follows_ite (fun hji => ?_) (fun hji => ?_)
  · rw [hserves, decide_eq_true_eq] at hji
    subst hji
    have hstep : Session.kjStep (s.shared j) ok (s.kj.of j) = some (sh, k) := by
      rw [hkj]
      exact (congrArg (Session.kjStep (s.shared j) ok) (if_pos rfl)).trans h
    refine client_kjStep hstep (shared_setClient (Session.kjStep_todo h).2) (thread_setClient s j _)
      rfl ?_ rfl
    show KjPc.of j (ite _ _ _) = k
    split
    next hidle => exact hidle.symm
    next => exact if_pos rfl
  · rw [hserves, decide_eq_true_eq] at hji
    refine client_congr (clients_setClient_of_ne s (Ne.symm hji) _) rfl rfl ?_ rfl
    have hbefore : s.kj.of i = .idle := by
      rw [hkj]
      exact if_neg hji
    rw [hbefore]
    show KjPc.of i (ite _ _ _) = .idle
    split
    next => rfl
    next => exact if_neg hji

/-- A step of msquic that changes the members of a client. -/
theorem client_setShared {j : Fin n} {sh : Shared} (hstop : sh.gStop = s.gStop) :
    State.client (s.setClient j { s.clients j with shared := sh }) j =
      { s.client j with shared := sh } :=
  client_eq (shared_setClient hstop) (thread_setClient s j _) rfl rfl rfl

/-- The callback for a datagram is nothing to the session. -/
theorem client_setInbound (s : State n) (j : Fin n) (x : Handle) (p : Option InboundPc) (i : Fin n) :
    (s.setInbound j x p).client i = s.client i := by
  have hclient : ((s.setInbound j x p).clients i).shared = (s.clients i).shared ∧
      ((s.setInbound j x p).clients i).thread = (s.clients i).thread := by
    unfold State.setInbound
    rw [clients_setClient]
    split
    next heq => exact heq ▸ ⟨rfl, rfl⟩
    next => exact ⟨rfl, rfl⟩
  refine client_eq ?_ hclient.2 rfl rfl rfl
  unfold State.shared
  rw [hclient.1]
  rfl

/-- A step of `main` that is about all clients or none, and leaves their members alone. -/
theorem follows_main {m : MainPc n} {stop : Bool} (i : Fin n)
    (hall : s.main.about i = true → Session.mainStep (s.client i) ok = some (s.shared i, m.of i))
    (hnone : s.main.about i = false → m.of i = s.main.of i) :
    Follows (s.client i) (State.client { s with main := m, kjStop := stop } i) (s.seen i (.main ok)) := by
  refine follows_ite (fun habout => ?_) (fun habout => ?_)
  · exact client_mainStep _ _ (hall habout) rfl rfl rfl rfl rfl
  · exact client_congr rfl rfl rfl rfl (hnone (Bool.not_eq_true _ ▸ habout))

/-- **A move is seen by each client as what `State.seen` says.** -/
theorem Moves.follows {a : Action n} (hs : Wired s) (h : Moves s a s') (i : Fin n) :
    Follows (s.client i) (s'.client i) (s.seen i a) := by
  cases h with
  | thread _ h => exact follows_thread h i
  | @first ok hm =>
    refine follows_main i (fun _ => ?_) fun hnot => by rw [hm] at hnot; cases hnot
    have hmain : (s.client i).main = .waiting := of_main hm
    rw [apply_ite (MainPc.of i)]
    simp only [Session.mainStep, hmain]
    rfl
  | leave hm hstop =>
    refine follows_main i (fun _ => ?_) fun hnot => by rw [hm] at hnot; cases hnot
    have hset : (s.client i).shared.gStop = true := hstop
    simp only [Session.mainStep, of_main hm, MainPc.of, hset, if_true]
    rfl
  | stopped hm hrouter =>
    refine follows_main i (fun _ => ?_) fun hnot => by rw [hm] at hnot; cases hnot
    simp only [Session.mainStep, of_main hm, of_router hrouter, MainPc.of, RouterPc.of, if_true]
    rfl
  | storeStop hm =>
    have habout : s.main.about i = true := by rw [hm]; rfl
    refine follows_ite (fun _ => ?_) fun hnot => absurd habout hnot
    refine client_mainStep { s.shared i with gStop := true } (.closing .lock) ?_ rfl rfl rfl rfl ((of_closeAll _ i).trans (if_pos (List.mem_finRange i)))
    simp only [Session.mainStep, of_main hm, MainPc.of]
    rfl
  | close hm _ h => exact follows_close hs hm h i
  | joined hm =>
    refine follows_main i (fun habout => by rw [hm] at habout; cases habout) fun _ => ?_
    rw [hm]
    show Session.MainPc.done = ite (i ∈ ([] : List (Fin n))) .joining .done
    exact (if_neg List.not_mem_nil).symm
  | join hm hdone => exact follows_join hs hm hdone i
  | stopKj hm | joinKj hm =>
    refine follows_main i (fun habout => by rw [hm] at habout; cases habout) fun _ => ?_
    rw [hm]
    rfl
  | packet hrouter hm hj => exact follows_packet hrouter hm hj i
  | dropped _ hn => exact absurd i.isLt (hn ▸ Nat.not_lt_zero i)
  | @send j p p' hrouter h =>
    refine follows_send (r := .sending j p') hrouter ?_ (fun k hk => if_neg hk) i
    have hstep : useStep (s.client j).shared p = .goto p' := h
    simp only [Session.routerStep, of_router hrouter, RouterPc.of, if_true, hstep]
  | @sent j p hrouter h =>
    refine follows_send hrouter ?_ (fun k _ => rfl) i
    simp only [Session.routerStep, of_router hrouter, RouterPc.of, if_true]
    cases hstep : useStep (s.client j).shared p with
    | goto p' => exact absurd hstep (h p')
    | rejected | called => rfl
  | take hkj hqueue => exact follows_take hs hkj hqueue i
  | finish hkj hqueue =>
    have hserves : s.serves i = false := by simp [State.serves, hkj, hqueue]
    refine follows_ite (fun hyes => by rw [hserves] at hyes; cases hyes) fun _ => ?_
    exact client_congr rfl rfl rfl (by rw [hkj]; rfl) rfl
  | serve hkj h => exact follows_serve hkj h i
  | drain hkj =>
    obtain ⟨-, hqueue⟩ := hs.past (Or.inl hkj)
    have hserves : s.serves i = false := by simp [State.serves, hkj]
    refine follows_ite (fun hyes => by rw [hserves] at hyes; cases hyes) fun _ => ?_
    refine client_congr (if_neg ?_) rfl rfl (by rw [hkj]; rfl) rfl
    rw [hqueue]
    exact List.not_mem_nil
  | @event j x e sh _ hdeliver =>
    refine follows_ite (fun hji => ?_) (fun hji => ?_)
    · subst hji
      show (deliver (s.shared j) x e).map _ = _
      rw [hdeliver]
      exact congrArg some (client_setShared (Session.deliver_future hdeliver).2).symm
    · exact client_congr (clients_setClient_of_ne s (Ne.symm hji) _) rfl rfl rfl rfl
  | @callback j x sh hstep =>
    refine follows_ite (fun hji => ?_) (fun hji => ?_)
    · subst hji
      show (callbackStep (s.shared j) x).map _ = _
      rw [hstep]
      exact congrArg some (client_setShared (Session.callbackStep_future hstep).2).symm
    · exact client_congr (clients_setClient_of_ne s (Ne.symm hji) _) rfl rfl rfl rfl
  | datagram | decode => exact client_setInbound s _ _ _ i
  | inject => exact client_setInbound s _ _ none i
  | signal => rfl

/-- **Each client sees a session.** A run of the process is seen by any of its clients as a run of the
session of that client, step by step or not at all; and where the close of a registration waits for its
connections, it does so there. -/
theorem client_refines (i : Fin n) :
    Machine.Refines (process n) Blocks session Session.Blocks (State.client · i) (State.seen · i) where
  init := rfl
  move s a s' b hs hblocks hstep hb := by
    refine ⟨hblocks i b hb, ?_⟩
    have hfollows := (step_moves hstep).follows (reach_wired hs) i
    rwa [hb] at hfollows
  stay s a s' hs _ hstep hb := by
    have hfollows := (step_moves hstep).follows (reach_wired hs) i
    rwa [hb] at hfollows

/-- **The process, seen by a client, is a session.** What a client sees of a run of the process, with any
number of clients, is a run of the session: its own thread, the parts of the shared threads that are about
it, and the events of its connections, in the order in which they happened. -/
theorem client_simulated {history : List (State n × Action n)} (h : (process n).Run Blocks history s)
    (i : Fin n) : session.Run Session.Blocks
      (Machine.seen (State.client · i) (State.seen · i) history) (s.client i) :=
  (client_refines i).run h

/-- The steps of a session as steps of the process. -/
def asClient (i : Fin n) : Session.Action → Action n
  | .thread ok => .thread i ok
  | .main ok => .main ok
  | .router => .router
  | .kj ok => .kj ok
  | .event x e => .event i x e
  | .callback x => .callback i x
  | .signal => .signal

theorem client_simulated_up : ∃ history s, (process 2).Run Blocks history s ∧
    session.Run Session.Blocks (Machine.seen (State.client · 1) (State.seen · 1) history) (s.client 1) ∧
    (s.client 1).thread = .wait ∧ (s.client 0).thread = .install := by
  have hexec : ((process 2).exec Blocks (process 2).init (Session.upSteps.map (asClient 1))).any
      (fun s => decide ((s.client 1).thread = .wait ∧ (s.client 0).thread = .install)) = true := by
    decide
  obtain ⟨s, hs, hthreads⟩ := Machine.exists_reach_of_exec hexec
  obtain ⟨history, hrun⟩ := hs.exists_run
  exact ⟨history, s, hrun, client_simulated hrun 1, hthreads⟩

end Cfd.Main.Process
