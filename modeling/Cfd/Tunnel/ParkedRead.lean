import Cfd.Tunnel.AsyncStream

/-!
# A parked read is woken

`tryRead` looks, makes a fulfiller, looks again and parks; an event may fall anywhere between. The
invariant `Parked` has two parts. While `read_wakeup_` holds a fulfiller, a reader is parked on it
and there is nothing to read. And each fulfiller is in one place only: in `read_wakeup_`, moved out,
or fulfilled.
-/

set_option autoImplicit false

namespace Cfd.Tunnel.AsyncStream

open Cfd.Base

/-- The fulfillers that have been stored, wherever they are now. -/
def State.ids (s : State) : List Nat :=
  s.readWakeup.toList ++ (s.firing ++ s.fulfilled)

/-- What holds of fulfillers and readers between the sections. -/
structure Parked (s : State) : Prop where
  held : ∀ f, s.readWakeup = some f →
    (∃ args, s.reader = .parked args f) ∧ s.recvQueue = [] ∧ s.eof = false
  known : ∀ args f, s.reader = .parked args f → f ∈ s.ids
  inHand : ∀ args f, s.reader = .second args f → f < s.made ∧ f ∉ s.ids
  below : ∀ f ∈ s.ids, f < s.made
  nodup : s.ids.Nodup

theorem State.readable_eq_false {s : State} (h : s.readable = false) :
    s.recvQueue = [] ∧ s.eof = false := by
  obtain ⟨hqueue, heof⟩ := Bool.or_eq_false_iff.mp h
  exact ⟨List.isEmpty_iff.mp (Bool.not_eq_false' .. ▸ hqueue), heof⟩

/-- Away from `parked`, nothing is stored. -/
theorem Parked.readWakeup_eq_none {s : State} (h : Parked s)
    (hreader : ∀ args f, s.reader ≠ .parked args f) : s.readWakeup = none := by
  cases hw : s.readWakeup with
  | none => rfl
  | some f =>
    obtain ⟨⟨args, hparked⟩, -⟩ := h.held f hw
    exact absurd hparked (hreader args f)

/-- What is stored is not fulfilled yet. -/
theorem Parked.not_fulfilled {s : State} (h : Parked s) {f : Nat} (hw : s.readWakeup = some f) :
    f ∉ s.fulfilled := by
  have hnodup := h.nodup
  rw [State.ids, hw] at hnodup
  intro hf
  have hmem : f ∈ s.firing ++ s.fulfilled := List.mem_append_right _ hf
  exact (List.nodup_cons.mp hnodup).1 hmem

/-- A reader step that stores nothing, from where nothing is stored. -/
theorem Parked.reader {s s' : State} (h : Parked s) (hnone : s.readWakeup = none)
    (hids : s'.ids = s.ids) (hwakeup : s'.readWakeup = s.readWakeup) (hmade : s.made ≤ s'.made)
    (hparked : ∀ args f, s'.reader ≠ .parked args f)
    (hsecond : ∀ args f, s'.reader = .second args f → f < s'.made ∧ f ∉ s.ids) : Parked s' := by
  refine ⟨fun f hf => ?_, fun args f hf => absurd hf (hparked args f), ?_, ?_, hids ▸ h.nodup⟩
  · rw [hwakeup, hnone] at hf
    cases hf
  · rw [hids]
    exact hsecond
  · rw [hids]
    exact fun f hf => Nat.lt_of_lt_of_le (h.below f hf) hmade

/-- A step of `onEvent`: fulfillers only move on, and the reader stands where it stood. -/
theorem Parked.event {s s' : State} (h : Parked s) (hids : s'.ids.Perm s.ids)
    (hreader : s'.reader = s.reader) (hmade : s'.made = s.made)
    (hheld : ∀ f, s'.readWakeup = some f →
      s.readWakeup = some f ∧ s'.recvQueue = s.recvQueue ∧ s'.eof = s.eof) : Parked s' := by
  refine ⟨fun f hf => ?_, fun args f hf => ?_, fun args f hf => ?_, fun f hf => ?_,
    hids.nodup_iff.mpr h.nodup⟩
  · obtain ⟨hw, hqueue, heof⟩ := hheld f hf
    rw [hreader, hqueue, heof]
    exact h.held f hw
  · exact hids.mem_iff.mpr (h.known args f (hreader ▸ hf))
  · rw [hids.mem_iff, hmade]
    exact h.inHand args f (hreader ▸ hf)
  · rw [hmade]
    exact h.below f (hids.mem_iff.mp hf)

theorem ids_onEvent (s : State) (ev : StreamEvent) : (s.onEvent ev).ids.Perm s.ids := by
  have hmoved : ((s.firing ++ s.readWakeup.toList) ++ s.fulfilled).Perm
      (s.readWakeup.toList ++ (s.firing ++ s.fulfilled)) := by
    rw [← List.append_assoc]
    exact List.perm_append_comm.append_right _
  cases ev <;> exact hmoved

theorem Parked.step {s s' : State} {a : Action} (h : Parked s) (hmove : Moves s a s') :
    Parked s' := by
  cases hmove with
  | tryRead hreader =>
    have hnone := h.readWakeup_eq_none (by rw [hreader]; nofun)
    exact h.reader hnone rfl rfl (Nat.le_refl _) nofun nofun
  | complete hreader =>
    have hnone := h.readWakeup_eq_none (by
      rcases hreader with hreader | ⟨f, hreader⟩ <;> rw [hreader] <;> nofun)
    exact h.reader hnone rfl rfl (Nat.le_refl _) nofun nofun
  | empty hreader =>
    have hnone := h.readWakeup_eq_none (by rw [hreader]; nofun)
    exact h.reader hnone rfl rfl (Nat.le_refl _) nofun nofun
  | make hreader =>
    have hnone := h.readWakeup_eq_none (by rw [hreader]; nofun)
    refine h.reader hnone rfl rfl (Nat.le_succ _) nofun fun args f hf => ?_
    cases hf
    exact ⟨Nat.lt_succ_self _, fun hmem => Nat.lt_irrefl _ (h.below _ hmem)⟩
  | @park args f hreader hreadable =>
    obtain ⟨hqueue, heof⟩ := State.readable_eq_false hreadable
    have hnone := h.readWakeup_eq_none (by rw [hreader]; nofun)
    obtain ⟨hmade, hnew⟩ := h.inHand args f hreader
    have hids : s.ids = s.firing ++ s.fulfilled := by rw [State.ids, hnone]; rfl
    rw [hids] at hnew
    refine ⟨fun g hg => ?_, fun args' g hg => ?_, nofun, fun g hg => ?_, ?_⟩
    · cases hg
      exact ⟨⟨args, rfl⟩, hqueue, heof⟩
    · cases hg
      exact List.mem_cons_self
    · rcases List.mem_cons.mp hg with rfl | hold
      · exact hmade
      · exact h.below g (hids ▸ hold)
    · exact List.nodup_cons.mpr ⟨hnew, hids ▸ h.nodup⟩
  | @resume args f hreader hfulfilled =>
    -- the reader's own fulfiller is fulfilled, so it is not the one that is stored
    have hnone : s.readWakeup = none := by
      cases hw : s.readWakeup with
      | none => rfl
      | some g =>
        obtain ⟨⟨args', hparked⟩, -⟩ := h.held g hw
        cases hreader.symm.trans hparked
        exact absurd hfulfilled (h.not_fulfilled hw)
    exact h.reader hnone rfl rfl (Nat.le_refl _) nofun nofun
  | onEvent =>
    refine h.event (ids_onEvent s _) ?_ ?_ fun f hf => ?_
    · unfold State.onEvent
      split <;> rfl
    · unfold State.onEvent
      split <;> rfl
    · unfold State.onEvent at hf
      split at hf <;> cases hf
  | @fulfill f hfiring =>
    refine h.event ?_ rfl rfl fun g hg => ⟨hg, rfl, rfl⟩
    refine List.Perm.append_left _ ?_
    show (s.firing.erase f ++ (s.fulfilled ++ [f])).Perm (s.firing ++ s.fulfilled)
    rw [← List.append_assoc]
    refine List.perm_append_comm.trans ?_
    rw [← List.append_assoc]
    exact ((List.perm_cons_erase hfiring).symm.append_right _)

theorem parked {s : State} (h : stream.Reachable s) : Parked s :=
  h.invariant ⟨nofun, nofun, nofun, nofun, .nil⟩ fun _ _ _ _ _ hstep hs =>
    hs.step (step_moves hstep)

/-! ## Fulfilments -/

/-- The fulfiller that a step fulfils. -/
def State.fulfills (_ : State) : Action → List Nat
  | .fulfill f => [f]
  | _ => []

/-- The fulfillers that a run has fulfilled, in order. -/
def fulfillments (history : List (State × Action)) : List Nat :=
  Machine.emitted State.fulfills history

theorem fulfillments_eq {history : List (State × Action)} {s : State}
    (h : stream.Run (fun _ _ => True) history s) : fulfillments history = s.fulfilled := by
  refine h.invariant (I := fun history s => fulfillments history = s.fulfilled) rfl
    fun history s a s' _ _ hstep hs => ?_
  rw [fulfillments, Machine.emitted_snoc]
  cases step_moves hstep with
  | fulfill => exact congrArg (· ++ _) hs
  | @onEvent ev => cases ev <;> exact (List.append_nil _).trans hs
  | _ => exact (List.append_nil _).trans hs

/-- **A parked read is never stranded.** After any run: what is stored waits for something to read;
a parked reader's fulfiller is stored, moved out or fulfilled, and not merely stored when there is
something to read; no fulfiller is fulfilled twice; and the fulfilment of what is moved out, and the
reader's resumption after it, can be taken. -/
theorem never_stranded {history : List (State × Action)} {s : State}
    (h : stream.Run (fun _ _ => True) history s) :
    (∀ f, s.readWakeup = some f → s.recvQueue = [] ∧ s.eof = false) ∧
      (∀ args f, s.reader = .parked args f →
        s.readWakeup = some f ∨ f ∈ s.firing ∨ f ∈ s.fulfilled) ∧
      (∀ args f, s.reader = .parked args f → s.recvQueue ≠ [] ∨ s.eof = true →
        f ∈ s.firing ∨ f ∈ s.fulfilled) ∧
      (fulfillments history).Nodup ∧
      (∀ f ∈ s.firing, (stream.step s (.fulfill f)).isSome = true) ∧
      ∀ args f, s.reader = .parked args f → f ∈ s.fulfilled →
        (stream.step s .reader).isSome = true := by
  have hs := parked h.reach
  have hplace : ∀ args f, s.reader = .parked args f →
      s.readWakeup = some f ∨ f ∈ s.firing ∨ f ∈ s.fulfilled := by
    intro args f hreader
    rcases List.mem_append.mp (hs.known args f hreader) with hstored | hout
    · exact Or.inl (Option.mem_toList.mp hstored)
    · exact Or.inr (List.mem_append.mp hout)
  refine ⟨fun f hf => (hs.held f hf).2, hplace, fun args f hreader hsome => ?_, ?_,
    fun f hf => ?_, fun args f hreader hf => ?_⟩
  · refine (hplace args f hreader).resolve_left fun hstored => ?_
    obtain ⟨-, hqueue, heof⟩ := hs.held f hstored
    rcases hsome with hne | htrue
    · exact hne hqueue
    · rw [heof] at htrue
      cases htrue
  · rw [fulfillments_eq h]
    exact (List.nodup_append.mp (List.nodup_append.mp hs.nodup).2.1).2.1
  · simp only [stream, if_pos hf, Option.isSome_some]
  · simp only [stream, State.readerStep, hreader, if_pos hf, Option.isSome_some]

/-- An end of stream between the parking of a read and its wakeup. -/
def endAfterPark : List Action :=
  [.tryRead ⟨1, 2⟩, .reader, .reader, .reader, .onEvent (.receive [] true), .fulfill 0]

theorem never_stranded_end : ∃ history s, stream.Run (fun _ _ => True) history s ∧
    s.eof = true ∧ (fulfillments history).Nodup := by
  have hexec : stream.exec (fun _ _ => True) stream.init endAfterPark = some _ := rfl
  obtain ⟨history, hrun⟩ := (Machine.reach_of_exec hexec).exists_run
  exact ⟨history, _, hrun, rfl, (never_stranded hrun).2.2.2.1⟩

end Cfd.Tunnel.AsyncStream
